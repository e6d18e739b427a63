import Synvoid.Framework.Transition
import Synvoid.Ipc.Signed

/-! # Replay of signed messages

    A run is a list of calls of `deserialize_signed` and of
    `SignedReader::read_message` that share the nonce cache. A message is fresh
    as long as its timestamp is at most the window before the clock, but a sweep
    drops its nonce already when the timestamp is exactly the window before the
    clock, so at that second the message is accepted once more
    (`frame_accepted_at_window_edge`).

    If no sweep drops an entry that is still fresh for the message that is
    being checked, then no frame is accepted twice (`frames_accepted_once`). The
    cache cannot be full of fresh entries, because each of them was accepted
    within the last two windows (`not_full_of_rate`).
-/

namespace Synvoid.Ipc

open Synvoid.Framework

/-! ## Section 1: Runs -/

/-- A frame as the cache sees it. -/
structure SignedFrame where
  signerId : Nat
  nonce : Nonce
  timestamp : Nat
  deriving DecidableEq

def SignedFrame.key (f : SignedFrame) : CacheKey := (f.signerId, f.nonce)

/-- A call that checks a message, or a change of the order of iteration. -/
inductive IpcCall where
  | deserializeSigned (signer : IpcSigner) (data : Bytes) (clock : ClockReads)
  | readMessage (signer : IpcSigner) (reader : SignedReader) (clock : ClockReads)
  | rehash

abbrev IpcRun := List (NonceCache × IpcCall)

/-- A message that has come as far as the nonce check. -/
structure Attempt where
  frame : SignedFrame
  clock : ClockReads

section calls

variable {T : Type} (hmac : Hmac) (decoder : EnvelopeDecoder T)

/-- A message that passes the checks of its timestamp and its HMAC. -/
def attemptOf (signer : IpcSigner) (m : SignedParts) (clock : ClockReads) : Option Attempt :=
  if verifyTimestamp m.timestamp.toNat clock.verify && m.authentic hmac signer then
    some ⟨⟨signer.signerId, m.nonce, m.timestamp.toNat⟩, clock⟩
  else none

namespace IpcCall

def clock? : IpcCall → Option ClockReads
  | deserializeSigned _ _ clock => some clock
  | readMessage _ _ clock => some clock
  | rehash => none

/-- The signed message that a call finds. -/
def checked : IpcCall → Option (IpcSigner × SignedParts × ClockReads)
  | deserializeSigned signer data clock =>
      ((frameBody data).toOption.bind fun body => (decoder.envelope body).toOption).map
        fun envelope => (signer, envelope.parts, clock)
  | readMessage signer reader clock =>
      ((readRaw reader.source).1.toOption.bind splitRaw).map fun m => (signer, m, clock)
  | rehash => none

def attempt (call : IpcCall) : Option Attempt :=
  (call.checked decoder).bind fun (signer, m, clock) => attemptOf hmac signer m clock

/-- Whether a call returns `Ok`. -/
def accepts (cache : NonceCache) : IpcCall → Bool
  | deserializeSigned signer data clock =>
      (Ipc.deserializeSigned hmac signer decoder data cache clock).1.isOk
  | readMessage signer reader clock => (reader.readMessage hmac signer cache clock).1.isOk
  | rehash => false

/-- The cache after a call. -/
def after (cache : NonceCache) : IpcCall → NonceCache
  | deserializeSigned signer data clock =>
      (Ipc.deserializeSigned hmac signer decoder data cache clock).2
  | readMessage signer reader clock => (reader.readMessage hmac signer cache clock).2.2
  | rehash => cache

end IpcCall

def ipcSystem : System NonceCache IpcCall where
  init := fun c => c.entries = ∅
  step := fun c call c' =>
    match call with
    | .rehash => c.entries.Reordered c'.entries ∧ c'.msgCount = c.msgCount
    | call => c' = call.after hmac decoder c

/-- The clocks of the calls. -/
def clocksOf (tr : IpcRun) : List ClockReads := tr.filterMap fun step => step.2.clock?

/-- The clock does not run backwards from one call to the next. -/
def NondecreasingClock (tr : IpcRun) : Prop :=
  (clocksOf tr).Pairwise fun c c' => c.capacity ≤ c'.verify

/-- The frame that a call accepts. -/
def acceptedFrame (step : NonceCache × IpcCall) : Option SignedFrame :=
  if step.2.accepts hmac decoder step.1 then (step.2.attempt hmac decoder).map Attempt.frame
  else none

/-- The frames that were accepted, as often as they were. -/
def acceptedFrames (tr : IpcRun) : List SignedFrame := tr.filterMap (acceptedFrame hmac decoder)

/-- The nonce that a call enters into the cache. -/
def enteredNonce (step : NonceCache × IpcCall) : Option Attempt :=
  (step.2.attempt hmac decoder).filter fun a =>
    (step.1.checkAndInsertNonce a.frame.signerId a.frame.nonce a.frame.timestamp a.clock).1

def enteredNonces (tr : IpcRun) : List Attempt := tr.filterMap (enteredNonce hmac decoder)

/-- Fewer nonces than the cache has room for are accepted in any two windows. -/
def RateFits (tr : IpcRun) : Prop :=
  ∀ t, ((enteredNonces hmac decoder tr).countP fun a =>
    a.clock.verify ≤ t ∧ t < a.clock.verify + 2 * replayWindowSecs) < maxNonceCacheSize

/-- The sweeps of a call drop only what is no longer fresh when its message is
    checked. -/
def SweepsExpired (step : NonceCache × IpcCall) : Prop :=
  ∀ a, step.2.attempt hmac decoder = some a →
    ∀ key timestamp, step.1.entries.lookup key = some timestamp →
      (step.1.sweep a.clock).entries.lookup key = none →
      timestamp + replayWindowSecs < a.clock.verify

/-! ## Section 2: The cache in one call -/

namespace NonceCache

variable {c : NonceCache} {clock : ClockReads} {key : CacheKey} {timestamp : Nat}

theorem lookup_retainSince {now : Nat} :
    (c.retainSince now).entries.lookup key = some timestamp ↔
      c.entries.lookup key = some timestamp ∧ timestamp > now - replayWindowSecs := by
  show (c.entries.traverse _).lookup key = some timestamp ↔ _
  rw [Table.lookup_traverse, Option.bind_eq_some_iff]
  constructor
  · rintro ⟨ts, hts, hkept⟩
    split at hkept
    · next hnew =>
      obtain rfl := Option.some.inj hkept
      exact ⟨hts, hnew⟩
    · cases hkept
  · rintro ⟨hts, hnew⟩
    exact ⟨timestamp, hts, if_pos hnew⟩

theorem lookup_of_periodicSweep (h : (c.periodicSweep clock).entries.lookup key = some timestamp) :
    c.entries.lookup key = some timestamp := by
  unfold periodicSweep at h
  split at h
  · exact (lookup_retainSince.mp h).1
  · exact h

/-- A sweep brings no entries. -/
theorem lookup_of_sweep (h : (c.sweep clock).entries.lookup key = some timestamp) :
    c.entries.lookup key = some timestamp := by
  unfold sweep at h
  simp only at h
  split at h
  · exact lookup_of_periodicSweep (lookup_retainSince.mp h).1
  · exact lookup_of_periodicSweep h

/-- A cache that is full after its sweep has recent entries only. -/
theorem recent_of_full (hfull : (c.sweep clock).len ≥ maxNonceCacheSize)
    (h : (c.sweep clock).entries.lookup key = some timestamp) :
    timestamp > clock.capacity - replayWindowSecs := by
  unfold sweep at h hfull
  simp only at h hfull
  split at h
  · exact (lookup_retainSince.mp h).2
  · next hroom =>
    rw [if_neg hroom] at hfull
    exact absurd hfull hroom

/-- The nonce check of a cache with room. -/
theorem checkAndInsertNonce_of_room (hroom : (c.sweep clock).len < maxNonceCacheSize)
    (f : SignedFrame) :
    c.checkAndInsertNonce f.signerId f.nonce f.timestamp clock =
      match (c.sweep clock).entries.lookup f.key with
      | some _ => (false, c.sweep clock)
      | none => (true, { c.sweep clock with
          entries := (c.sweep clock).entries.insert f.key f.timestamp }) := by
  have hmake : (c.sweep clock).makeRoom = some (c.sweep clock) := if_neg (by omega)
  simp only [checkAndInsertNonce, hmake]
  rfl

end NonceCache

/-! ## Section 3: What a call does -/

variable {hmac decoder}

theorem verifyTimestamp_iff {timestamp now : Nat} :
    verifyTimestamp timestamp now = true ↔
      now ≤ timestamp + replayWindowSecs ∧ timestamp ≤ now + replayWindowSecs := by
  simp [verifyTimestamp]
  omega

theorem attemptOf_eq_some {signer : IpcSigner} {m : SignedParts} {clock : ClockReads}
    {a : Attempt} :
    attemptOf hmac signer m clock = some a ↔
      (verifyTimestamp m.timestamp.toNat clock.verify = true ∧ m.authentic hmac signer = true) ∧
        a = ⟨⟨signer.signerId, m.nonce, m.timestamp.toNat⟩, clock⟩ := by
  unfold attemptOf
  split
  · next hpassed => simp [Bool.and_eq_true_iff.mp hpassed, eq_comm]
  · next hfailed =>
    rw [Bool.and_eq_true_iff] at hfailed
    simp [hfailed]

/-- What comes as far as the nonce check is fresh. -/
theorem fresh_of_attempt {call : IpcCall} {a : Attempt} (h : call.attempt hmac decoder = some a) :
    a.clock.verify ≤ a.frame.timestamp + replayWindowSecs ∧
      a.frame.timestamp ≤ a.clock.verify + replayWindowSecs := by
  obtain ⟨⟨signer, m, clock⟩, -, hattempt⟩ := Option.bind_eq_some_iff.mp h
  obtain ⟨⟨htime, -⟩, rfl⟩ := attemptOf_eq_some.mp hattempt
  exact verifyTimestamp_iff.mp htime

theorem clock_of_attempt {call : IpcCall} {a : Attempt} (h : call.attempt hmac decoder = some a) :
    call.clock? = some a.clock := by
  obtain ⟨⟨signer, m, clock⟩, hchecked, hattempt⟩ := Option.bind_eq_some_iff.mp h
  obtain ⟨-, rfl⟩ := attemptOf_eq_some.mp hattempt
  cases call with
  | deserializeSigned signer data clock =>
    obtain ⟨_, -, heq⟩ := Option.map_eq_some_iff.mp hchecked
    simp only [Prod.mk.injEq] at heq
    exact congrArg some heq.2.2
  | readMessage signer reader clock =>
    obtain ⟨_, -, heq⟩ := Option.map_eq_some_iff.mp hchecked
    simp only [Prod.mk.injEq] at heq
    exact congrArg some heq.2.2
  | rehash => cases hchecked

section verifySigned
variable {signer : IpcSigner} {m : SignedParts} {clock : ClockReads} (hmacFailed replayed : IoError)
  (cache : NonceCache)

/-- A message that does not come to the nonce check leaves the cache alone. -/
theorem verifySigned_of_none (h : attemptOf hmac signer m clock = none) :
    ∃ e, verifySigned hmac signer hmacFailed replayed m cache clock = (.error e, cache) := by
  unfold attemptOf at h
  unfold verifySigned
  cases htime : verifyTimestamp m.timestamp.toNat clock.verify with
  | false => exact ⟨_, rfl⟩
  | true =>
    cases hmacOk : m.authentic hmac signer with
    | false => exact ⟨_, rfl⟩
    | true => simp [htime, hmacOk] at h

/-- For any other the nonce check decides. -/
theorem verifySigned_of_some {a : Attempt} (h : attemptOf hmac signer m clock = some a) :
    verifySigned hmac signer hmacFailed replayed m cache clock =
      match cache.checkAndInsertNonce a.frame.signerId a.frame.nonce a.frame.timestamp a.clock with
      | (false, cache) => (.error replayed, cache)
      | (true, cache) => (.ok (), cache) := by
  obtain ⟨⟨htime, hmacOk⟩, rfl⟩ := attemptOf_eq_some.mp h
  have hfresh : ¬ (!verifyTimestamp m.timestamp.toNat clock.verify) = true := by simp [htime]
  have hauthentic : ¬ (!m.authentic hmac signer) = true := by simp [hmacOk]
  exact (if_neg hfresh).trans (if_neg hauthentic)

end verifySigned

theorem eq_ok_of_toOption {ε α : Type} {x : Except ε α} {a : α} (h : x.toOption = some a) :
    x = .ok a := by
  cases x with
  | error e => cases h
  | ok b => exact congrArg Except.ok (Option.some.inj h)

/-- A call that finds no message fails and leaves the cache alone. -/
theorem call_of_unchecked {call : IpcCall} (h : call.checked decoder = none) (cache : NonceCache) :
    call.accepts hmac decoder cache = false ∧ call.after hmac decoder cache = cache := by
  cases call with
  | rehash => exact ⟨rfl, rfl⟩
  | deserializeSigned signer data clock =>
    rw [IpcCall.checked, Option.map_eq_none_iff] at h
    rw [IpcCall.accepts, IpcCall.after, deserializeSigned]
    cases hbody : frameBody data with
    | error e => exact ⟨rfl, rfl⟩
    | ok body =>
      rw [hbody] at h
      cases henv : decoder.envelope body with
      | error e =>
        simp only [henv, and_true]
        rfl
      | ok envelope =>
        have hsome : (decoder.envelope body).toOption = none := h
        rw [henv] at hsome
        cases hsome
  | readMessage signer reader clock =>
    rw [IpcCall.checked, Option.map_eq_none_iff] at h
    rw [IpcCall.accepts, IpcCall.after, SignedReader.readMessage]
    generalize readRaw reader.source = read at h
    obtain ⟨raw, source⟩ := read
    cases raw with
    | error e => exact ⟨rfl, rfl⟩
    | ok raw =>
      have hsplit : splitRaw raw = none := h
      simp only [hsplit, and_true]
      rfl

variable (hmac) in
/-- A call that finds a message succeeds only if the checks do, which also
    make the change of the cache. -/
theorem call_of_checked {call : IpcCall} {signer : IpcSigner} {m : SignedParts} {clock : ClockReads}
    (h : call.checked decoder = some (signer, m, clock)) (cache : NonceCache) :
    ∃ hmacFailed replayed,
      (call.accepts hmac decoder cache = true →
        (verifySigned hmac signer hmacFailed replayed m cache clock).1 = .ok ()) ∧
      call.after hmac decoder cache =
        (verifySigned hmac signer hmacFailed replayed m cache clock).2 := by
  cases call with
  | rehash => cases h
  | deserializeSigned signer data clock =>
    obtain ⟨envelope, hfound, heq⟩ := Option.map_eq_some_iff.mp h
    simp only [Prod.mk.injEq] at heq
    obtain ⟨rfl, rfl, rfl⟩ := heq
    obtain ⟨body, hbody, henv⟩ := Option.bind_eq_some_iff.mp hfound
    refine ⟨⟨.permissionDenied, "IPC message HMAC verification failed"⟩,
      ⟨.invalidData, "IPC message replay detected"⟩, ?_⟩
    rw [IpcCall.accepts, IpcCall.after, deserializeSigned, eq_ok_of_toOption hbody]
    simp only [eq_ok_of_toOption henv]
    generalize verifySigned hmac signer _ _ envelope.parts cache clock = result
    obtain ⟨verdict, cache'⟩ := result
    cases verdict with
    | error e => exact ⟨fun hok => (by cases hok), rfl⟩
    | ok _ => exact ⟨fun _ => rfl, rfl⟩
  | readMessage signer reader clock =>
    obtain ⟨m', hfound, heq⟩ := Option.map_eq_some_iff.mp h
    simp only [Prod.mk.injEq] at heq
    obtain ⟨rfl, rfl, rfl⟩ := heq
    obtain ⟨raw, hraw, hsplit⟩ := Option.bind_eq_some_iff.mp hfound
    refine ⟨⟨.invalidData, "HMAC verification failed"⟩,
      ⟨.invalidData, "replay detected: duplicate nonce"⟩, ?_⟩
    rw [IpcCall.accepts, IpcCall.after, SignedReader.readMessage]
    generalize readRaw reader.source = read at hraw
    obtain ⟨result, source⟩ := read
    obtain rfl : result = .ok raw := eq_ok_of_toOption hraw
    simp only [hsplit]
    generalize verifySigned hmac signer _ _ m' cache clock = result
    obtain ⟨verdict, cache'⟩ := result
    cases verdict with
    | error e => exact ⟨fun hok => (by cases hok), rfl⟩
    | ok _ => exact ⟨fun _ => rfl, rfl⟩

theorem call_of_none {call : IpcCall} (h : call.attempt hmac decoder = none) (cache : NonceCache) :
    call.accepts hmac decoder cache = false ∧ call.after hmac decoder cache = cache := by
  cases hchecked : call.checked decoder with
  | none => exact call_of_unchecked hchecked cache
  | some found =>
    obtain ⟨signer, m, clock⟩ := found
    have hattempt : attemptOf hmac signer m clock = none := by
      rw [IpcCall.attempt, hchecked] at h
      exact h
    obtain ⟨hmacFailed, replayed, haccepts, hafter⟩ := call_of_checked hmac hchecked cache
    obtain ⟨e, hverify⟩ := verifySigned_of_none hmacFailed replayed cache hattempt
    rw [hverify] at haccepts hafter
    refine ⟨?_, hafter⟩
    by_contra hok
    cases haccepts (by simpa using hok)

/-- After an attempt the cache is as the nonce check leaves it, and the call
    succeeds only if the check does. -/
theorem call_of_some {call : IpcCall} {a : Attempt} (h : call.attempt hmac decoder = some a)
    (cache : NonceCache) :
    (call.accepts hmac decoder cache = true →
      (cache.checkAndInsertNonce a.frame.signerId a.frame.nonce a.frame.timestamp
        a.clock).1 = true) ∧
    call.after hmac decoder cache =
      (cache.checkAndInsertNonce a.frame.signerId a.frame.nonce a.frame.timestamp a.clock).2 := by
  obtain ⟨⟨signer, m, clock⟩, hchecked, hattempt⟩ := Option.bind_eq_some_iff.mp h
  obtain ⟨hmacFailed, replayed, haccepts, hafter⟩ := call_of_checked hmac hchecked cache
  rw [verifySigned_of_some hmacFailed replayed cache hattempt] at haccepts hafter
  rw [hafter]
  generalize cache.checkAndInsertNonce a.frame.signerId a.frame.nonce a.frame.timestamp a.clock =
    result at haccepts
  obtain ⟨inserted, cache'⟩ := result
  cases inserted with
  | false => exact ⟨fun hok => (by cases haccepts hok), rfl⟩
  | true => exact ⟨fun _ => rfl, rfl⟩

/-! ## Section 4: Whole runs -/

variable (hmac decoder) in
/-- Every entry of the cache was entered by a call, and every nonce that was
    entered is still there or has expired for good. -/
structure CacheTracks (tr : IpcRun) (c : NonceCache) : Prop where
  nodup : ((enteredNonces hmac decoder tr).map Attempt.frame).Nodup
  tracked : ∀ key timestamp, c.entries.lookup key = some timestamp →
    ∃ a ∈ enteredNonces hmac decoder tr, a.frame.key = key ∧ a.frame.timestamp = timestamp
  remembered : ∀ a ∈ enteredNonces hmac decoder tr,
    c.entries.lookup a.frame.key = some a.frame.timestamp ∨
      ∃ clock ∈ clocksOf tr, a.frame.timestamp + replayWindowSecs < clock.verify

theorem fresh_of_entered {tr : IpcRun} {a : Attempt} (h : a ∈ enteredNonces hmac decoder tr) :
    a.clock ∈ clocksOf tr ∧ a.frame.timestamp ≤ a.clock.verify + replayWindowSecs := by
  obtain ⟨step, hstep, hentered⟩ := List.mem_filterMap.mp h
  have hattempt := (Option.filter_eq_some_iff.mp hentered).1
  exact ⟨List.mem_filterMap.mpr ⟨step, hstep, clock_of_attempt hattempt⟩,
    (fresh_of_attempt hattempt).2⟩

/-- A swept cache has room, since all its entries were accepted within the last
    two windows. -/
theorem not_full_of_rate {tr : IpcRun} {c : NonceCache} {clock : ClockReads}
    (htracks : CacheTracks hmac decoder tr c) (hrate : RateFits hmac decoder tr)
    (hclock : ∀ clock' ∈ clocksOf tr, clock'.capacity ≤ clock.verify) :
    (c.sweep clock).len < maxNonceCacheSize := by
  by_contra hfull
  rw [Nat.not_lt] at hfull
  have hsubset : (c.sweep clock).entries.keys ⊆
      ((enteredNonces hmac decoder tr).filter fun a => a.clock.verify ≤ clock.capacity ∧
        clock.capacity < a.clock.verify + 2 * replayWindowSecs).map fun a => a.frame.key := by
    intro key hkey
    obtain ⟨timestamp, hlookup⟩ := Option.isSome_iff_exists.mp (AList.lookup_isSome.mpr hkey)
    have hrecent := NonceCache.recent_of_full hfull hlookup
    obtain ⟨a, ha, hakey, hats⟩ :=
      htracks.tracked key timestamp (NonceCache.lookup_of_sweep hlookup)
    obtain ⟨hmem, hfresh⟩ := fresh_of_entered ha
    have hbefore := hclock a.clock hmem
    have h₁ := a.clock.verify_le
    have h₂ := a.clock.retain_le
    have h₃ := clock.verify_le
    have h₄ := clock.retain_le
    refine List.mem_map.mpr ⟨a, List.mem_filter.mpr ⟨ha, ?_⟩, hakey⟩
    simp only [decide_eq_true_eq]
    omega
  have hle := ((c.sweep clock).entries.keys_nodup.subperm hsubset).length_le
  have hlen : (c.sweep clock).entries.keys.length = (c.sweep clock).len := by
    simp [NonceCache.len, AList.keys, List.keys]
  rw [List.length_map, ← List.countP_eq_length_filter, hlen] at hle
  exact Nat.lt_irrefl _ (Nat.lt_of_lt_of_le (hrate clock.capacity) (hfull.trans hle))

theorem enteredNonces_snoc (tr : IpcRun) (step : NonceCache × IpcCall) :
    enteredNonces hmac decoder (tr ++ [step]) =
      enteredNonces hmac decoder tr ++ (enteredNonce hmac decoder step).toList := by
  rw [enteredNonces, List.filterMap_append]
  cases hentered : enteredNonce hmac decoder step <;> simp [hentered, enteredNonces]

theorem clocksOf_snoc (tr : IpcRun) (step : NonceCache × IpcCall) :
    clocksOf (tr ++ [step]) = clocksOf tr ++ step.2.clock?.toList := by
  rw [clocksOf, List.filterMap_append]
  cases hclock : step.2.clock? <;> simp [hclock, clocksOf]

/-- A step that enters nothing and only drops expired entries. -/
theorem CacheTracks.idle {tr : IpcRun} {c c' : NonceCache} {call : IpcCall}
    (h : CacheTracks hmac decoder tr c) (hentered : enteredNonce hmac decoder (c, call) = none)
    (hold : ∀ key timestamp, c'.entries.lookup key = some timestamp →
      c.entries.lookup key = some timestamp)
    (hkept : ∀ key timestamp, c.entries.lookup key = some timestamp →
      c'.entries.lookup key = some timestamp ∨
        ∃ clock ∈ clocksOf (tr ++ [(c, call)]), timestamp + replayWindowSecs < clock.verify) :
    CacheTracks hmac decoder (tr ++ [(c, call)]) c' := by
  have hsame : enteredNonces hmac decoder (tr ++ [(c, call)]) = enteredNonces hmac decoder tr := by
    rw [enteredNonces_snoc, hentered]
    exact List.append_nil _
  refine ⟨by rw [hsame]; exact h.nodup, ?_, ?_⟩
  · intro key timestamp hlookup
    rw [hsame]
    exact h.tracked key timestamp (hold key timestamp hlookup)
  · intro a ha
    rw [hsame] at ha
    rcases h.remembered a ha with hlookup | ⟨clock, hclock, hexpired⟩
    · exact hkept _ _ hlookup
    · refine Or.inr ⟨clock, ?_, hexpired⟩
      rw [clocksOf_snoc]
      exact List.mem_append_left _ hclock

/-- The nonce check of an attempt. -/
theorem CacheTracks.attempt {tr : IpcRun} {c : NonceCache} {call : IpcCall} {a : Attempt}
    (h : CacheTracks hmac decoder tr c) (hattempt : call.attempt hmac decoder = some a)
    (hclock : ∀ clock ∈ clocksOf tr, clock.capacity ≤ a.clock.verify)
    (hrate : RateFits hmac decoder tr) (hsweeps : SweepsExpired hmac decoder (c, call)) :
    CacheTracks hmac decoder (tr ++ [(c, call)])
      (c.checkAndInsertNonce a.frame.signerId a.frame.nonce a.frame.timestamp a.clock).2 := by
  have hroom := not_full_of_rate h hrate hclock
  have hcheck := NonceCache.checkAndInsertNonce_of_room hroom a.frame
  have hclocks : clocksOf (tr ++ [(c, call)]) = clocksOf tr ++ [a.clock] := by
    rw [clocksOf_snoc, clock_of_attempt hattempt]
    rfl
  have hkept : ∀ key timestamp, c.entries.lookup key = some timestamp →
      (c.sweep a.clock).entries.lookup key = some timestamp ∨
        ∃ clock ∈ clocksOf (tr ++ [(c, call)]), timestamp + replayWindowSecs < clock.verify := by
    intro key timestamp hlookup
    cases hswept : (c.sweep a.clock).entries.lookup key with
    | none =>
      refine Or.inr ⟨a.clock, by simp [hclocks], ?_⟩
      exact hsweeps a hattempt key timestamp hlookup hswept
    | some timestamp' =>
      have hsame := NonceCache.lookup_of_sweep hswept
      rw [hlookup] at hsame
      exact Or.inl hsame.symm
  cases hfound : (c.sweep a.clock).entries.lookup a.frame.key with
  | some timestamp =>
    rw [hfound] at hcheck
    have hentered : enteredNonce hmac decoder (c, call) = none := by
      rw [enteredNonce, hattempt]
      simp [hcheck]
    rw [hcheck]
    exact h.idle hentered (fun _ _ => NonceCache.lookup_of_sweep) hkept
  | none =>
    rw [hfound] at hcheck
    have hentered : enteredNonces hmac decoder (tr ++ [(c, call)]) =
        enteredNonces hmac decoder tr ++ [a] := by
      have hone : enteredNonce hmac decoder (c, call) = some a := by
        rw [enteredNonce, hattempt]
        simp [hcheck]
      rw [enteredNonces_snoc, hone]
      rfl
    rw [hcheck]
    obtain ⟨hfresh, -⟩ := fresh_of_attempt hattempt
    refine ⟨?_, ?_, ?_⟩
    · rw [hentered, List.map_append, List.map_singleton, ← List.concat_eq_append]
      refine h.nodup.concat ?_
      intro hmem
      obtain ⟨b, hb, heq⟩ := List.mem_map.mp hmem
      rcases h.remembered b hb with hlookup | ⟨clock, hmem', hexpired⟩
      · rw [heq] at hlookup
        have := hsweeps a hattempt _ _ hlookup hfound
        omega
      · have hle := hclock clock hmem'
        have h₁ := clock.verify_le
        have h₂ := clock.retain_le
        rw [heq] at hexpired
        omega
    · intro key timestamp hlookup
      rw [hentered]
      simp only [Table.lookup_insert_eq] at hlookup
      split at hlookup
      · next hkey => exact ⟨a, by simp, hkey.symm, Option.some.inj hlookup⟩
      · obtain ⟨b, hb, hbkey⟩ := h.tracked key timestamp (NonceCache.lookup_of_sweep hlookup)
        exact ⟨b, List.mem_append_left _ hb, hbkey⟩
    · intro b hb
      rw [hentered, List.mem_append, List.mem_singleton] at hb
      rcases hb with hb | rfl
      · rcases h.remembered b hb with hlookup | ⟨clock, hmem', hexpired⟩
        · refine (hkept _ _ hlookup).imp_left fun hswept => ?_
          simp only [Table.lookup_insert_eq]
          rw [if_neg, hswept]
          intro hkey
          rw [hkey, hfound] at hswept
          cases hswept
        · refine Or.inr ⟨clock, ?_, hexpired⟩
          rw [hclocks]
          exact List.mem_append_left _ hmem'
      · refine Or.inl ?_
        simp only [Table.lookup_insert_eq, if_true]

theorem RateFits.of_snoc {tr : IpcRun} {step : NonceCache × IpcCall}
    (h : RateFits hmac decoder (tr ++ [step])) : RateFits hmac decoder tr := by
  intro t
  have ht := h t
  rw [enteredNonces_snoc, List.countP_append] at ht
  omega

theorem cacheTracks_of_exec {tr : IpcRun} {c : NonceCache}
    (h : (ipcSystem hmac decoder).Exec tr c) (hclock : NondecreasingClock tr)
    (hrate : RateFits hmac decoder tr) (hsweeps : ∀ step ∈ tr, SweepsExpired hmac decoder step) :
    CacheTracks hmac decoder tr c := by
  revert hclock hrate hsweeps
  refine System.Exec.history (fun tr c => NondecreasingClock tr → RateFits hmac decoder tr →
    (∀ step ∈ tr, SweepsExpired hmac decoder step) → CacheTracks hmac decoder tr c) ?_ ?_ h
  · intro c hinit _ _ _
    have hempty : c.entries = ∅ := hinit
    refine ⟨List.nodup_nil, ?_, fun a ha => by cases ha⟩
    intro key timestamp hlookup
    rw [hempty] at hlookup
    simp at hlookup
  · intro tr c call c' ih hstep hclock hrate hsweeps
    rw [NondecreasingClock, clocksOf_snoc, List.pairwise_append] at hclock
    rw [forall_mem_snoc] at hsweeps
    have htracks := ih hclock.1 hrate.of_snoc hsweeps.1
    by_cases hrehash : call = .rehash
    · subst hrehash
      have hsame := (show c.entries.Reordered c'.entries ∧ _ from hstep).1
      refine htracks.idle rfl ?_ ?_
      · intro key timestamp hlookup
        rwa [hsame.lookup] at hlookup
      · intro key timestamp hlookup
        exact Or.inl (by rwa [hsame.lookup])
    · obtain rfl : c' = call.after hmac decoder c := by
        cases call with
        | rehash => exact absurd rfl hrehash
        | deserializeSigned signer data clock => exact hstep
        | readMessage signer reader clock => exact hstep
      cases hattempt : call.attempt hmac decoder with
      | none =>
        rw [(call_of_none hattempt c).2]
        have hentered : enteredNonce hmac decoder (c, call) = none := by
          rw [enteredNonce, hattempt]
          rfl
        exact htracks.idle hentered (fun _ _ hlookup => hlookup) (fun _ _ => Or.inl)
      | some a =>
        rw [(call_of_some hattempt c).2]
        refine htracks.attempt hattempt ?_ hrate.of_snoc hsweeps.2
        intro clock hmem
        exact hclock.2.2 clock hmem a.clock (by simp [clock_of_attempt hattempt])

/-- A frame that is accepted has entered its nonce. -/
theorem acceptedFrames_sublist (tr : IpcRun) :
    (acceptedFrames hmac decoder tr).Sublist
      ((enteredNonces hmac decoder tr).map Attempt.frame) := by
  induction tr with
  | nil => exact List.Sublist.slnil
  | cons step tr ih =>
    obtain ⟨c, call⟩ := step
    simp only [acceptedFrames, enteredNonces, List.filterMap_cons] at ih ⊢
    cases haccepted : acceptedFrame hmac decoder (c, call) with
    | none =>
      cases enteredNonce hmac decoder (c, call) with
      | none => exact ih
      | some a => exact ih.cons a.frame
    | some f =>
      obtain ⟨hok, a, hattempt, rfl⟩ : call.accepts hmac decoder c = true ∧
          ∃ a, call.attempt hmac decoder = some a ∧ a.frame = f := by
        unfold acceptedFrame at haccepted
        split at haccepted
        · next hok => exact ⟨hok, Option.map_eq_some_iff.mp haccepted⟩
        · cases haccepted
      have hentered : enteredNonce hmac decoder (c, call) = some a :=
        Option.filter_eq_some_iff.mpr ⟨hattempt, (call_of_some hattempt c).1 hok⟩
      rw [hentered]
      exact ih.cons_cons a.frame

/-- **No frame is accepted twice**, in any run under a clock that does not run
    backwards and with a rate that fits the cache, if no sweep drops an entry
    that is still fresh. -/
theorem frames_accepted_once {tr : IpcRun} {c : NonceCache}
    (h : (ipcSystem hmac decoder).Exec tr c) (hclock : NondecreasingClock tr)
    (hrate : RateFits hmac decoder tr) (hsweeps : ∀ step ∈ tr, SweepsExpired hmac decoder step) :
    (acceptedFrames hmac decoder tr).Nodup :=
  (cacheTracks_of_exec h hclock hrate hsweeps).nodup.sublist (acceptedFrames_sublist tr)

end calls

/-! ## Section 5: The edge of the window -/

section edge

variable {T : Type} (hmac : Hmac) (decoder : EnvelopeDecoder T)

def edgeSigner : IpcSigner := ⟨zeros⟩

def edgeNonce : Nonce := ⟨List.replicate 16 7, rfl⟩

def edgeFrame : SignedFrame := ⟨edgeSigner.signerId, edgeNonce, 100⟩

/-- A reader with one signed message of time 100. -/
def edgeReader : SignedReader :=
  .new (.ofBytes (signMessage hmac edgeSigner 100 edgeNonce [1]).frame)

/-- The message is checked at the time `now`. -/
def edgeCall (now : Nat) : IpcCall := .readMessage edgeSigner (edgeReader hmac) (.still now)

theorem checked_edgeCall (now : Nat) :
    ∃ source, readRaw (edgeReader hmac).source =
        (.ok (signMessage hmac edgeSigner 100 edgeNonce [1]).raw, source) ∧
      (edgeCall hmac now).checked decoder =
        some (edgeSigner, signMessage hmac edgeSigner 100 edgeNonce [1], .still now) := by
  obtain ⟨source, hread, -⟩ := readRaw_frame (m := signMessage hmac edgeSigner 100 edgeNonce [1])
    (by decide : (1 : Nat) ≤ SignedWriter.maxPayload) (Source.clean_ofBytes _)
    (by rw [Source.bytes_ofBytes, List.append_nil])
  refine ⟨source, hread, ?_⟩
  have hraw : readRaw (edgeReader hmac).source = _ := hread
  rw [edgeCall, IpcCall.checked, hraw]
  simp [Except.toOption, splitRaw_raw]

theorem attempt_edgeCall {now : Nat} (hfresh : verifyTimestamp 100 now = true) :
    (edgeCall hmac now).attempt hmac decoder = some ⟨edgeFrame, .still now⟩ := by
  obtain ⟨-, -, hchecked⟩ := checked_edgeCall hmac decoder now
  rw [IpcCall.attempt, hchecked]
  exact attemptOf_eq_some.mpr ⟨⟨hfresh, authentic_signMessage ..⟩, rfl⟩

/-- For this message the nonce check decides. -/
theorem accepts_edgeCall {now : Nat} (hfresh : verifyTimestamp 100 now = true) (c : NonceCache) :
    (edgeCall hmac now).accepts hmac decoder c =
      (c.checkAndInsertNonce edgeFrame.signerId edgeFrame.nonce edgeFrame.timestamp
        (.still now)).1 := by
  obtain ⟨source, hread, -⟩ := checked_edgeCall hmac decoder now
  have hattempt : attemptOf hmac edgeSigner (signMessage hmac edgeSigner 100 edgeNonce [1])
      (.still now) = some ⟨edgeFrame, .still now⟩ :=
    attemptOf_eq_some.mpr ⟨⟨hfresh, authentic_signMessage ..⟩, rfl⟩
  rw [edgeCall, IpcCall.accepts, SignedReader.readMessage, hread]
  simp only [splitRaw_raw, verifySigned_of_some _ _ _ hattempt]
  generalize c.checkAndInsertNonce _ _ _ _ = result
  obtain ⟨inserted, c'⟩ := result
  cases inserted <;> rfl

theorem NonceCache.len_retainSince_le (c : NonceCache) (now : Nat) :
    (c.retainSince now).len ≤ c.len :=
  List.length_filterMap_le _ _

theorem NonceCache.len_sweep_le (c : NonceCache) (clock : ClockReads) :
    (c.sweep clock).len ≤ c.len := by
  have hperiodic : (c.periodicSweep clock).len ≤ c.len := by
    unfold periodicSweep
    split
    · exact len_retainSince_le _ _
    · exact Nat.le_refl _
  unfold sweep
  simp only
  split
  · exact (len_retainSince_le _ _).trans hperiodic
  · exact hperiodic

/-- With room in the cache and no sweep due, only the counter changes. -/
theorem NonceCache.sweep_idle {c : NonceCache} {clock : ClockReads}
    (hlen : c.len < maxNonceCacheSize)
    (hcount : c.msgCount % retainInterval ≠ 0) :
    c.sweep clock = { c with msgCount := c.msgCount + 1 } := by
  have hperiodic : c.periodicSweep clock = { c with msgCount := c.msgCount + 1 } := if_neg hcount
  rw [sweep, hperiodic]
  exact if_neg (Nat.not_le.mpr hlen)

/-- The message is accepted when its nonce is not in the swept cache. -/
theorem edgeCall_entered {now : Nat} (hfresh : verifyTimestamp 100 now = true) {c : NonceCache}
    (hlen : c.len < maxNonceCacheSize)
    (hnone : (c.sweep (.still now)).entries.lookup edgeFrame.key = none) :
    (edgeCall hmac now).after hmac decoder c =
        { c.sweep (.still now) with
          entries := (c.sweep (.still now)).entries.insert edgeFrame.key 100 } ∧
      enteredNonce hmac decoder (c, edgeCall hmac now) = some ⟨edgeFrame, .still now⟩ ∧
      acceptedFrame hmac decoder (c, edgeCall hmac now) = some edgeFrame := by
  have hattempt := attempt_edgeCall hmac decoder hfresh
  have hroom := Nat.lt_of_le_of_lt (c.len_sweep_le (.still now)) hlen
  have hcheck := NonceCache.checkAndInsertNonce_of_room hroom edgeFrame
  rw [hnone] at hcheck
  refine ⟨?_, ?_, ?_⟩
  · rw [(call_of_some hattempt c).2, hcheck]
    rfl
  · rw [enteredNonce, hattempt, Option.filter_some, if_pos (by rw [hcheck])]
  · rw [acceptedFrame, if_pos, hattempt]
    · rfl
    · rw [accepts_edgeCall hmac decoder hfresh, hcheck]

/-- It is rejected when its nonce is there and no sweep is due. -/
theorem edgeCall_rejected {c : NonceCache} (hlen : c.len < maxNonceCacheSize)
    (hcount : c.msgCount % retainInterval ≠ 0)
    (hlookup : c.entries.lookup edgeFrame.key = some 100) :
    (edgeCall hmac 100).after hmac decoder c = { c with msgCount := c.msgCount + 1 } ∧
      enteredNonce hmac decoder (c, edgeCall hmac 100) = none ∧
      acceptedFrame hmac decoder (c, edgeCall hmac 100) = none := by
  have hfresh : verifyTimestamp 100 100 = true := by decide
  have hattempt := attempt_edgeCall hmac decoder hfresh
  have hsweep : c.sweep (.still 100) = _ := NonceCache.sweep_idle hlen hcount
  have hroom := Nat.lt_of_le_of_lt (c.len_sweep_le (.still 100)) hlen
  have hcheck := NonceCache.checkAndInsertNonce_of_room hroom edgeFrame
  rw [hsweep] at hcheck
  simp only [hlookup] at hcheck
  refine ⟨?_, ?_, ?_⟩
  · rw [(call_of_some hattempt c).2, hcheck]
  · rw [enteredNonce, hattempt, Option.filter_some,
      if_neg (by rw [hcheck]; exact Bool.false_ne_true)]
  · rw [acceptedFrame, if_neg]
    rw [accepts_edgeCall hmac decoder hfresh, hcheck]
    exact Bool.false_ne_true

/-- One acceptance and up to 63 rejections, all at the time 100. -/
theorem exec_edgeCalls {n : Nat} (hn : n ≤ 63) :
    ∃ tr c, (ipcSystem hmac decoder).Exec tr c ∧
      clocksOf tr = List.replicate (n + 1) (.still 100) ∧
      enteredNonces hmac decoder tr = [⟨edgeFrame, .still 100⟩] ∧
      acceptedFrames hmac decoder tr = [edgeFrame] ∧
      c.entries.lookup edgeFrame.key = some 100 ∧ c.len = 1 ∧
      c.msgCount = UInt64.ofNat (n + 1) := by
  induction n with
  | zero =>
    have hinit : (ipcSystem hmac decoder).Exec [] ⟨∅, 0⟩ := .nil rfl
    have hfresh : verifyTimestamp 100 100 = true := by decide
    obtain ⟨hafter, hentered, haccepted⟩ :=
      edgeCall_entered hmac decoder hfresh (c := ⟨∅, 0⟩) (by decide) rfl
    refine ⟨_, _, hinit.snoc (l := edgeCall hmac 100) hafter.symm, rfl, ?_, ?_, ?_, rfl, rfl⟩
    · rw [enteredNonces_snoc, hentered]
      rfl
    · rw [acceptedFrames, List.nil_append, List.filterMap_cons_some haccepted]
      rfl
    · exact AList.lookup_insert _
  | succ n ih =>
    obtain ⟨tr, c, hexec, hclocks, hentered, haccepted, hlookup, hlen, hcount⟩ := ih (by omega)
    have hdue : c.msgCount % retainInterval ≠ 0 := by
      rw [hcount]
      intro hzero
      have := congrArg UInt64.toNat hzero
      rw [UInt64.toNat_mod, UInt64.toNat_ofNat'] at this
      simp only [retainInterval, UInt64.reduceToNat] at this
      omega
    obtain ⟨hafter, hentered', haccepted'⟩ :=
      edgeCall_rejected hmac decoder (by rw [hlen]; decide) hdue hlookup
    refine ⟨_, _, hexec.snoc (l := edgeCall hmac 100) hafter.symm, ?_, ?_, ?_, hlookup, hlen, ?_⟩
    · rw [clocksOf_snoc, hclocks, List.replicate_succ' (n := n + 1)]
      rfl
    · rw [enteredNonces_snoc, hentered, hentered']
      rfl
    · rw [acceptedFrames, List.filterMap_append, List.filterMap_cons_none haccepted']
      rw [acceptedFrames] at haccepted
      rw [haccepted]
      rfl
    · show c.msgCount + 1 = _
      rw [hcount, UInt64.ofNat_add (n + 1) 1]
      rfl

/-- The message is accepted at its own time, and once more at the last second
    of the window, when a sweep is due. -/
theorem exec_edgeOfWindow :
    ∃ tr c, (ipcSystem hmac decoder).Exec tr c ∧ NondecreasingClock tr ∧
      RateFits hmac decoder tr ∧ acceptedFrames hmac decoder tr = [edgeFrame, edgeFrame] := by
  obtain ⟨tr, c, hexec, hclocks, hentered, haccepted, hlookup, hlen, hcount⟩ :=
    exec_edgeCalls hmac decoder (Nat.le_refl 63)
  have hfresh : verifyTimestamp 100 160 = true := by decide
  have hroom : c.len < maxNonceCacheSize := by
    rw [hlen]
    decide
  have hswept : (c.sweep (.still 160)).entries.lookup edgeFrame.key = none := by
    have hperiodic : c.periodicSweep (.still 160) =
        { c with msgCount := c.msgCount + 1 }.retainSince 160 := by
      refine if_pos ?_
      rw [hcount]
      decide
    rw [Option.eq_none_iff_forall_ne_some]
    intro timestamp hsome
    have hlookup' := NonceCache.lookup_of_sweep hsome
    rw [hlookup] at hlookup'
    obtain rfl := Option.some.inj hlookup'
    unfold NonceCache.sweep at hsome
    simp only [hperiodic] at hsome
    split at hsome
    · exact absurd (NonceCache.lookup_retainSince.mp (NonceCache.lookup_retainSince.mp hsome).1).2
        (by decide)
    · exact absurd (NonceCache.lookup_retainSince.mp hsome).2 (by decide)
  obtain ⟨hafter, hentered', haccepted'⟩ := edgeCall_entered hmac decoder hfresh hroom hswept
  refine ⟨_, _, hexec.snoc (l := edgeCall hmac 160) hafter.symm, ?_, ?_, ?_⟩
  · rw [NondecreasingClock, clocksOf_snoc, hclocks, List.pairwise_append]
    refine ⟨List.pairwise_replicate.mpr (Or.inr (Nat.le_refl 100)), List.pairwise_singleton _ _, ?_⟩
    intro clock hmem clock' hmem'
    obtain rfl := (List.mem_replicate.mp hmem).2
    obtain rfl : clock' = .still 160 := by simpa [edgeCall, IpcCall.clock?] using hmem'
    decide
  · intro t
    rw [enteredNonces_snoc, hentered, hentered']
    exact Nat.lt_of_le_of_lt List.countP_le_length (by decide)
  · rw [acceptedFrames] at haccepted
    rw [acceptedFrames, List.filterMap_append, List.filterMap_cons_some haccepted', haccepted]
    rfl

end edge

/-- A decoder to run the model with. -/
def noEnvelopes : EnvelopeDecoder Unit := ⟨fun _ => .error ⟨.invalidData, ""⟩, fun _ => .ok ()⟩

/-- **A frame is accepted twice**, sixty seconds apart. -/
theorem frame_accepted_at_window_edge :
    ∃ tr c, (ipcSystem zeroHmac noEnvelopes).Exec tr c ∧ NondecreasingClock tr ∧
      RateFits zeroHmac noEnvelopes tr ∧ ¬ (acceptedFrames zeroHmac noEnvelopes tr).Nodup := by
  obtain ⟨tr, c, hexec, hclock, hrate, haccepted⟩ := exec_edgeOfWindow zeroHmac noEnvelopes
  refine ⟨tr, c, hexec, hclock, hrate, ?_⟩
  rw [haccepted]
  simp

/-- Read once more within the window, it is not accepted again. -/
theorem frame_accepted_once_in_window :
    ∃ tr c, (ipcSystem zeroHmac noEnvelopes).Exec tr c ∧
      clocksOf tr = [.still 100, .still 130] ∧ (acceptedFrames zeroHmac noEnvelopes tr).Nodup := by
  have hinit : (ipcSystem zeroHmac noEnvelopes).Exec [] ⟨∅, 0⟩ := .nil rfl
  have hfresh : verifyTimestamp 100 100 = true := by decide
  obtain ⟨hafter, -, -⟩ :=
    edgeCall_entered zeroHmac noEnvelopes hfresh (c := ⟨∅, 0⟩) (by decide) rfl
  have hexec := (hinit.snoc (l := edgeCall zeroHmac 100) hafter.symm).snoc
    (l := edgeCall zeroHmac 130) rfl
  refine ⟨_, _, hexec, rfl, frames_accepted_once hexec ?_ ?_ ?_⟩
  · exact List.pairwise_pair.mpr (by decide)
  · intro t
    refine Nat.lt_of_le_of_lt List.countP_le_length ?_
    exact Nat.lt_of_le_of_lt (List.length_filterMap_le _ _) (by decide)
  · rw [forall_mem_snoc, List.nil_append, List.forall_mem_singleton]
    refine ⟨?_, ?_⟩
    · intro a _ key timestamp hlookup
      simp at hlookup
    -- no sweep is due with the second message
    · intro a _ key timestamp hlookup hswept
      rw [NonceCache.sweep_idle (by decide) (by decide)] at hswept
      exact absurd (hlookup.symm.trans hswept) (Option.some_ne_none _)

end Synvoid.Ipc
