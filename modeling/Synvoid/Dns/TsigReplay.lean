import Mathlib.Data.List.Count
import Synvoid.Framework.Transition
import Synvoid.Dns.Tsig

/-! # Replay of signed messages

    A message may be verified as long as the clock is within `fudge` seconds of
    its signing time, on either side, and the signer chooses `fudge`. The cache
    forgets a MAC at the first sweep that finds it 300 seconds old.

    A message that is accepted at the start of its window is forgotten before the
    window ends if the window is 300 seconds wide (`accepted_again`). With a
    window that is narrower the sweep comes too late, and the message is accepted
    at most once in every run (`accepted_once_iff`).
-/

namespace Synvoid.Dns

open Synvoid.Framework

/-! ## Section 1: Runs -/

structure VerifyCall where
  message : Bytes
  tsig : TsigParseResult
  clock : ClockReads

/-- What makes two calls calls for the same signed message. -/
structure SignedMessage where
  message : Bytes
  mac : Bytes
  keyName : Str
  timeSigned : UInt64
  fudge : UInt16
  deriving DecidableEq

def VerifyCall.signed (call : VerifyCall) : SignedMessage :=
  ⟨call.message, call.tsig.mac, call.tsig.keyName, call.tsig.timeSigned, call.tsig.fudge⟩

abbrev VerifyRun := List (ReplayCache × VerifyCall)

section runs

variable (hmac : Hmac) (sha256 : Bytes → Bytes) (keys : TsigKeys)

namespace VerifyCall

def accepts (cache : ReplayCache) (call : VerifyCall) : Bool :=
  (verify hmac sha256 keys cache call.clock call.message call.tsig).1.isOk

def after (cache : ReplayCache) (call : VerifyCall) : ReplayCache :=
  (verify hmac sha256 keys cache call.clock call.message call.tsig).2

end VerifyCall

def tsigSystem : System ReplayCache VerifyCall where
  init := fun c => ∃ now, c = .new now
  step := fun c call c' => c' = call.after hmac sha256 keys c

/-- The calls that were accepted. -/
def acceptedCalls (tr : VerifyRun) : List VerifyCall :=
  (tr.filter fun step => step.2.accepts hmac sha256 keys step.1).map Prod.snd

/-- The messages that were accepted, as often as they were. -/
def acceptedMessages (tr : VerifyRun) : List SignedMessage :=
  (acceptedCalls hmac sha256 keys tr).map VerifyCall.signed

end runs

/-- The clock does not run backwards from one call to the next. -/
def NondecreasingClock (tr : VerifyRun) : Prop :=
  (tr.map Prod.snd).Pairwise fun a b => a.clock.inserted ≤ b.clock.verify

/-! ## Section 2: The cache in one call -/

namespace ReplayCache

variable {c : ReplayCache} {clock : ClockReads} {h h' : Bytes} {t : Nat}

/-- A sweep drops only what is old. -/
theorem lookup_sweep_of_some (hlookup : c.entries.lookup h = some t) :
    (c.sweep clock).entries.lookup h = some t ∨ t + replayCacheTtl ≤ clock.cutoff := by
  unfold sweep
  split
  · next helapsed =>
    have hlong : replayCacheTtl ≤ clock.elapsed - c.lastCleanup :=
      (Nat.le_div_iff_mul_le (by decide)).mp helapsed
    have hcutoff := clock.elapsed_le
    rw [cleanupExpired, Table.lookup_traverse, hlookup, Option.bind_some]
    by_cases hyoung : t > clock.cutoff - replayCacheTtl
    · exact Or.inl (if_pos hyoung)
    · exact Or.inr (by omega)
  · exact Or.inl hlookup

theorem length_sweep_le (c : ReplayCache) (clock : ClockReads) :
    (c.sweep clock).entries.entries.length ≤ c.entries.entries.length := by
  unfold sweep
  split
  · exact List.length_filterMap_le _ _
  · exact Nat.le_refl _

/-- With room, an insertion adds an entry to what the sweep leaves. -/
theorem insert_of_room (hroom : c.entries.entries.length < maxReplayCacheSize) :
    (c.insert h clock).entries = (c.sweep clock).entries.insert h clock.inserted := by
  have hle := length_sweep_le c clock
  unfold insert makeRoom
  simp only
  rw [if_neg (by omega)]

theorem length_insert_le (hroom : c.entries.entries.length < maxReplayCacheSize) :
    (c.insert h clock).entries.entries.length ≤ c.entries.entries.length + 1 := by
  have hle := length_sweep_le c clock
  rw [insert_of_room hroom, Table.length_insert]
  split <;> omega

/-- What an insertion with room leaves of another entry. -/
theorem lookup_insert_of_some (hroom : c.entries.entries.length < maxReplayCacheSize)
    (hne : h' ≠ h) (hlookup : c.entries.lookup h' = some t) :
    (c.insert h clock).entries.lookup h' = some t ∨ t + replayCacheTtl ≤ clock.cutoff := by
  rw [insert_of_room hroom, Table.lookup_insert_eq, if_neg hne]
  exact lookup_sweep_of_some hlookup

theorem lookup_insert_self (hroom : c.entries.entries.length < maxReplayCacheSize) :
    (c.insert h clock).entries.lookup h = some clock.inserted := by
  rw [insert_of_room hroom, Table.lookup_insert_eq, if_pos rfl]

end ReplayCache

/-! ## Section 3: Acceptance of a call -/

theorem ClockReads.toNat_unixTimestampSecs (clock : ClockReads) :
    clock.unixTimestampSecs.toNat = clock.verify / nanosPerSec := by
  have hle : clock.verify / nanosPerSec ≤ clock.inserted / nanosPerSec :=
    Nat.div_le_div_right (clock.verify_le.trans
      (clock.elapsed_le.trans (clock.cutoff_le.trans clock.cleaned_le)))
  unfold ClockReads.unixTimestampSecs
  rw [UInt64.toNat_ofNat', Nat.mod_eq_of_lt (Nat.lt_of_le_of_lt hle clock.seconds_lt)]

section acceptance

variable {hmac : Hmac} {sha256 : Bytes → Bytes} {keys : TsigKeys} {c : ReplayCache}
  {call : VerifyCall}

theorem VerifyCall.accepts_iff : call.accepts hmac sha256 keys c = true ↔
    authenticate hmac keys call.clock.unixTimestampSecs call.message call.tsig = .ok () ∧
      c.entries.lookup (sha256 call.tsig.mac) = none := by
  unfold VerifyCall.accepts verify
  cases authenticate hmac keys call.clock.unixTimestampSecs call.message call.tsig with
  | error e => simp [Except.isOk, Except.toBool]
  | ok u =>
    simp only [true_and]
    unfold ReplayCache.isReplay
    cases c.entries.lookup (sha256 call.tsig.mac) <;> simp [Except.isOk, Except.toBool]

theorem VerifyCall.after_of_accepts (h : call.accepts hmac sha256 keys c = true) :
    call.after hmac sha256 keys c = c.insert (sha256 call.tsig.mac) call.clock := by
  obtain ⟨hok, hlookup⟩ := VerifyCall.accepts_iff.mp h
  unfold VerifyCall.after verify
  rw [hok]
  simp [ReplayCache.isReplay, hlookup]

theorem VerifyCall.after_of_not_accepts (h : ¬ call.accepts hmac sha256 keys c = true) :
    call.after hmac sha256 keys c = c := by
  rw [VerifyCall.accepts_iff] at h
  unfold VerifyCall.after verify
  cases hauth : authenticate hmac keys call.clock.unixTimestampSecs call.message call.tsig with
  | error e => rfl
  | ok u =>
    have hsome : c.isReplay (sha256 call.tsig.mac) = true := by
      unfold ReplayCache.isReplay
      cases hlookup : c.entries.lookup (sha256 call.tsig.mac) with
      | none => exact absurd ⟨hauth, hlookup⟩ h
      | some t => rfl
    simp [hsome]

/-- Two acceptances of one message are less than `2 * fudge + 1` seconds apart. -/
theorem acceptances_close {a b : VerifyCall} {ca cb : ReplayCache}
    (ha : a.accepts hmac sha256 keys ca = true) (hb : b.accepts hmac sha256 keys cb = true)
    (hsame : a.signed = b.signed) :
    b.clock.verify < a.clock.verify + (2 * a.tsig.fudge.toNat + 1) * nanosPerSec := by
  have hwa := (authenticate_eq_ok_iff.mp (VerifyCall.accepts_iff.mp ha).1).2.1
  have hwb := (authenticate_eq_ok_iff.mp (VerifyCall.accepts_iff.mp hb).1).2.1
  have htime : a.tsig.timeSigned = b.tsig.timeSigned := congrArg SignedMessage.timeSigned hsame
  have hfudge : a.tsig.fudge = b.tsig.fudge := congrArg SignedMessage.fudge hsame
  rw [← htime, ← hfudge] at hwb
  unfold absDiff at hwa hwb
  rw [ClockReads.toNat_unixTimestampSecs] at hwa hwb
  have hsecs : b.clock.verify / nanosPerSec ≤
      a.clock.verify / nanosPerSec + 2 * a.tsig.fudge.toNat := by omega
  have hpos : 0 < nanosPerSec := by decide
  have hb' := Nat.lt_succ_iff.mpr hsecs
  rw [Nat.div_lt_iff_lt_mul hpos] at hb'
  have hfloor := Nat.div_mul_le_self a.clock.verify nanosPerSec
  calc b.clock.verify
      < (a.clock.verify / nanosPerSec + 2 * a.tsig.fudge.toNat + 1) * nanosPerSec := hb'
    _ = a.clock.verify / nanosPerSec * nanosPerSec +
          (2 * a.tsig.fudge.toNat + 1) * nanosPerSec := by
        rw [Nat.add_assoc, Nat.add_mul]
    _ ≤ a.clock.verify + (2 * a.tsig.fudge.toNat + 1) * nanosPerSec :=
        Nat.add_le_add_right hfloor _

end acceptance

/-! ## Section 4: What the cache remembers -/

section invariant

variable {hmac : Hmac} {sha256 : Bytes → Bytes} {keys : TsigKeys} {tr : VerifyRun}
  {c c' : ReplayCache} {call : VerifyCall}

theorem acceptedCalls_snoc : acceptedCalls hmac sha256 keys (tr ++ [(c, call)]) =
    acceptedCalls hmac sha256 keys tr ++
      if call.accepts hmac sha256 keys c then [call] else [] := by
  unfold acceptedCalls
  rw [List.filter_append, List.map_append]
  by_cases h : call.accepts hmac sha256 keys c = true <;> simp [h]

theorem mem_of_mem_acceptedCalls {a : VerifyCall} (h : a ∈ acceptedCalls hmac sha256 keys tr) :
    ∃ ca, (ca, a) ∈ tr ∧ a.accepts hmac sha256 keys ca = true := by
  obtain ⟨⟨ca, a'⟩, hmem, rfl⟩ := List.mem_map.mp h
  exact ⟨ca, List.mem_filter.mp hmem⟩

theorem nondecreasingClock_snoc (h : NondecreasingClock (tr ++ [(c, call)])) :
    NondecreasingClock tr ∧ ∀ step ∈ tr, step.2.clock.inserted ≤ call.clock.verify := by
  unfold NondecreasingClock at h
  rw [List.map_append, List.pairwise_append] at h
  exact ⟨h.1, fun step hstep => h.2.2 step.2 (List.mem_map_of_mem hstep) call (by simp)⟩

/-- The MAC of an accepted call is in the cache, or a sweep has found it old. -/
def Remembered (sha256 : Bytes → Bytes) (tr : VerifyRun) (c : ReplayCache) (a : VerifyCall) :
    Prop :=
  c.entries.lookup (sha256 a.tsig.mac) = some a.clock.inserted ∨
    ∃ step ∈ tr, a.clock.inserted + replayCacheTtl ≤ step.2.clock.cutoff

structure ReplayInv (hmac : Hmac) (sha256 : Bytes → Bytes) (keys : TsigKeys) (tr : VerifyRun)
    (c : ReplayCache) : Prop where
  length_le : c.entries.entries.length ≤ (acceptedCalls hmac sha256 keys tr).length
  remembered : ∀ a ∈ acceptedCalls hmac sha256 keys tr, Remembered sha256 tr c a

theorem Remembered.snoc {a : VerifyCall} (h : Remembered sha256 tr c a) (hsame : c' = c) :
    Remembered sha256 (tr ++ [(c, call)]) c' a := by
  subst hsame
  rcases h with hlookup | ⟨step, hstep, hold⟩
  · exact Or.inl hlookup
  · exact Or.inr ⟨step, by simp [hstep], hold⟩

/-- A sweep may drop what is remembered, but then it is old. -/
theorem Remembered.insert {a : VerifyCall} (h : Remembered sha256 tr c a)
    (hroom : c.entries.entries.length < maxReplayCacheSize)
    (hnew : c.entries.lookup (sha256 call.tsig.mac) = none) :
    Remembered sha256 (tr ++ [(c, call)]) (c.insert (sha256 call.tsig.mac) call.clock) a := by
  rcases h with hlookup | ⟨step, hstep, hold⟩
  · have hne : sha256 a.tsig.mac ≠ sha256 call.tsig.mac := by
      intro heq
      rw [heq, hnew] at hlookup
      cases hlookup
    rcases ReplayCache.lookup_insert_of_some hroom hne hlookup with hkept | hold
    · exact Or.inl hkept
    · exact Or.inr ⟨(c, call), by simp, hold⟩
  · exact Or.inr ⟨step, by simp [hstep], hold⟩

/-- **Step lemma.** -/
theorem ReplayInv.step (hinv : ReplayInv hmac sha256 keys tr c)
    (hfew : (acceptedCalls hmac sha256 keys (tr ++ [(c, call)])).length ≤ maxReplayCacheSize - 1) :
    ReplayInv hmac sha256 keys (tr ++ [(c, call)]) (call.after hmac sha256 keys c) := by
  by_cases haccepts : call.accepts hmac sha256 keys c = true
  · have hcalls : acceptedCalls hmac sha256 keys (tr ++ [(c, call)]) =
        acceptedCalls hmac sha256 keys tr ++ [call] := by
      rw [acceptedCalls_snoc, if_pos haccepts]
    rw [hcalls, List.length_append, List.length_singleton] at hfew
    have hroom : c.entries.entries.length < maxReplayCacheSize := by
      have := hinv.length_le
      omega
    rw [VerifyCall.after_of_accepts haccepts]
    refine ⟨?_, ?_⟩
    · rw [hcalls, List.length_append, List.length_singleton]
      exact (ReplayCache.length_insert_le hroom).trans (Nat.add_le_add_right hinv.length_le 1)
    · intro a ha
      rw [hcalls, List.mem_append, List.mem_singleton] at ha
      rcases ha with ha | rfl
      · exact (hinv.remembered a ha).insert hroom (VerifyCall.accepts_iff.mp haccepts).2
      · exact Or.inl (ReplayCache.lookup_insert_self hroom)
  · have hcalls : acceptedCalls hmac sha256 keys (tr ++ [(c, call)]) =
        acceptedCalls hmac sha256 keys tr := by
      rw [acceptedCalls_snoc, if_neg haccepts, List.append_nil]
    rw [VerifyCall.after_of_not_accepts haccepts]
    exact ⟨hcalls ▸ hinv.length_le, fun a ha => (hinv.remembered a (hcalls ▸ ha)).snoc rfl⟩

/-- **Run lemma.** -/
theorem replayInv_of_exec (h : (tsigSystem hmac sha256 keys).Exec tr c)
    (hfew : (acceptedCalls hmac sha256 keys tr).length ≤ maxReplayCacheSize - 1) :
    ReplayInv hmac sha256 keys tr c := by
  revert hfew
  refine System.Exec.history (fun tr c =>
    (acceptedCalls hmac sha256 keys tr).length ≤ maxReplayCacheSize - 1 →
      ReplayInv hmac sha256 keys tr c) ?_ ?_ h
  · rintro c ⟨now, rfl⟩ -
    exact ⟨by simp [ReplayCache.new], by simp [acceptedCalls]⟩
  · intro tr c call c' ih hstep hfew
    obtain rfl : c' = call.after hmac sha256 keys c := hstep
    refine (ih ?_).step hfew
    rw [acceptedCalls_snoc, List.length_append] at hfew
    omega

/-- A message with a narrow window that was accepted is not accepted again. -/
theorem not_accepted_again (hinv : ReplayInv hmac sha256 keys tr c)
    (hclock : NondecreasingClock (tr ++ [(c, call)]))
    (haccepts : call.accepts hmac sha256 keys c = true)
    (hnarrow : 2 * call.tsig.fudge.toNat < tsigReplayCacheTtlSecs) :
    call.signed ∉ acceptedMessages hmac sha256 keys tr := by
  intro hmem
  obtain ⟨a, ha, hsame⟩ := List.mem_map.mp hmem
  have hmac' : a.tsig.mac = call.tsig.mac := congrArg SignedMessage.mac hsame
  have hfudge : a.tsig.fudge = call.tsig.fudge := congrArg SignedMessage.fudge hsame
  rcases hinv.remembered a ha with hlookup | ⟨step, hstep, hold⟩
  · rw [hmac', (VerifyCall.accepts_iff.mp haccepts).2] at hlookup
    cases hlookup
  · obtain ⟨ca, -, haccepted⟩ := mem_of_mem_acceptedCalls ha
    have hclose := acceptances_close haccepted haccepts hsame
    have hlater := (nondecreasingClock_snoc hclock).2 step hstep
    have hsweep := step.2.clock.cutoff_le.trans step.2.clock.cleaned_le
    have hreads := a.clock.verify_le.trans
      (a.clock.elapsed_le.trans (a.clock.cutoff_le.trans a.clock.cleaned_le))
    -- the sweep comes when the window of `a` is over
    have hwide : (2 * a.tsig.fudge.toNat + 1) * nanosPerSec ≤ replayCacheTtl :=
      Nat.mul_le_mul_right _ (by rw [hfudge]; exact hnarrow)
    omega

/-- **Run lemma.** A message with a narrow window is accepted at most once. -/
theorem count_acceptedMessages_le (h : (tsigSystem hmac sha256 keys).Exec tr c)
    (hclock : NondecreasingClock tr)
    (hfew : (acceptedCalls hmac sha256 keys tr).length ≤ maxReplayCacheSize - 1)
    {m : SignedMessage} (hnarrow : 2 * m.fudge.toNat < tsigReplayCacheTtlSecs) :
    (acceptedMessages hmac sha256 keys tr).count m ≤ 1 := by
  revert hclock hfew
  -- the run is carried along, for the invariant of its last state
  refine (System.Exec.history (fun tr c => (tsigSystem hmac sha256 keys).Exec tr c ∧
    (NondecreasingClock tr →
      (acceptedCalls hmac sha256 keys tr).length ≤ maxReplayCacheSize - 1 →
      (acceptedMessages hmac sha256 keys tr).count m ≤ 1)) ?_ ?_ h).2
  · rintro c hinit
    exact ⟨.nil hinit, fun _ _ => by simp [acceptedMessages, acceptedCalls]⟩
  · rintro tr c call c' ⟨hexec, ih⟩ hstep
    refine ⟨hexec.snoc hstep, fun hclock hfew => ?_⟩
    have hfew' : (acceptedCalls hmac sha256 keys tr).length ≤ maxReplayCacheSize - 1 := by
      rw [acceptedCalls_snoc, List.length_append] at hfew
      omega
    have hcount := ih (nondecreasingClock_snoc hclock).1 hfew'
    unfold acceptedMessages at hcount ⊢
    rw [acceptedCalls_snoc, List.map_append, List.count_append]
    by_cases haccepts : call.accepts hmac sha256 keys c = true
    · rw [if_pos haccepts, List.map_singleton]
      by_cases hm : call.signed = m
      · have hnarrow' : 2 * call.tsig.fudge.toNat < tsigReplayCacheTtlSecs := by
          rw [← hm] at hnarrow
          exact hnarrow
        have hnot := not_accepted_again (replayInv_of_exec hexec hfew') hclock haccepts hnarrow'
        rw [hm] at hnot
        have hzero := List.count_eq_zero_of_not_mem hnot
        unfold acceptedMessages at hzero
        rw [hzero, hm]
        simp
      · rw [List.count_singleton]
        simpa [hm] using hcount
    · rw [if_neg haccepts]
      simpa using hcount

end invariant

/-! ## Section 5: A sweep inside the window

    A message that was signed at second 1000 is accepted at second 850. Another
    one is accepted at second 1150, and its insertion sweeps the first out of the
    cache. -/

def clockAt (secs : Nat) (h : secs < 2 ^ 64) : ClockReads where
  verify := secs * nanosPerSec
  elapsed := secs * nanosPerSec
  cutoff := secs * nanosPerSec
  cleaned := secs * nanosPerSec
  inserted := secs * nanosPerSec
  verify_le := Nat.le_refl _
  elapsed_le := Nat.le_refl _
  cutoff_le := Nat.le_refl _
  cleaned_le := Nat.le_refl _
  seconds_lt := by rwa [Nat.mul_div_cancel _ (by decide)]

def transferKey : TsigKey where
  name := "transfer-key".toList
  secret := List.replicate 32 7
  algorithm := .hmacSha256
  long := minSecretLen_le_sevens

def transferKeys : TsigKeys := KeyedTable.empty.insert transferKey

/-- The record of a message that was signed at second 1000. -/
def signedAt1000 (hmac : Hmac) (fudge : UInt16) (message : Bytes) : TsigParseResult where
  keyName := transferKey.name
  algorithm := 161
  timeSigned := 1000
  fudge := fudge
  mac := hmac .hmacSha256 transferKey.secret
    (dataToSign message transferKey.name .hmacSha256 1000 fudge 0)
  tsigError := 0
  otherLen := 0
  originalOffset := 0

def callAt (hmac : Hmac) (fudge : UInt16) (message : Bytes) (secs : Nat) (h : secs < 2 ^ 64) :
    VerifyCall :=
  ⟨message, signedAt1000 hmac fudge message, clockAt secs h⟩

section sweep

variable {hmac : Hmac} {sha256 : Bytes → Bytes} {fudge : UInt16}

theorem unixTimestampSecs_clockAt (secs : Nat) (h : secs < 2 ^ 64) :
    (clockAt secs h).unixTimestampSecs = UInt64.ofNat secs := by
  show UInt64.ofNat (secs * nanosPerSec / nanosPerSec) = _
  rw [Nat.mul_div_cancel _ (by decide)]

theorem authenticate_callAt {message : Bytes} {secs : Nat} {h : secs < 2 ^ 64}
    (hwindow : absDiff 1000 (UInt64.ofNat secs) ≤ fudge.toNat) :
    authenticate hmac transferKeys (clockAt secs h).unixTimestampSecs message
      (signedAt1000 hmac fudge message) = .ok () := by
  rw [unixTimestampSecs_clockAt, authenticate_eq_ok_iff]
  have hkey : transferKeys.get transferKey.name = some transferKey :=
    KeyedTable.get_insert_self KeyedTable.empty transferKey
  refine ⟨rfl, hwindow, transferKey, hkey, rfl, ?_⟩
  have hother : ¬ (signedAt1000 hmac fudge message).otherLen > 0 :=
    (by decide : ¬ (0 : UInt16) > 0)
  unfold expectedMac
  rw [if_neg hother, List.append_nil]
  rfl

/-- A call is accepted if its MAC is not in the cache. -/
theorem accepts_callAt {message : Bytes} {secs : Nat} {h : secs < 2 ^ 64} {c : ReplayCache}
    (hwindow : absDiff 1000 (UInt64.ofNat secs) ≤ fudge.toNat)
    (hnew : c.entries.lookup (sha256 (signedAt1000 hmac fudge message).mac) = none) :
    (callAt hmac fudge message secs h).accepts hmac sha256 transferKeys c = true :=
  VerifyCall.accepts_iff.mpr ⟨authenticate_callAt (h := h) hwindow, hnew⟩

/-- Different messages have different MAC hashes. -/
theorem macHash_ne (hhmac : ∀ algorithm secret, Function.Injective (hmac algorithm secret))
    (hsha : Function.Injective sha256) :
    sha256 (signedAt1000 hmac fudge [1]).mac ≠ sha256 (signedAt1000 hmac fudge [2]).mac := by
  intro heq
  have hdata := hhmac _ _ (hsha heq)
  simp [dataToSign] at hdata

variable (hmac sha256 fudge) in
/-- The cache after the message at second 850. -/
def cacheAt850 : ReplayCache :=
  (callAt hmac fudge [1] 850 (by decide)).after hmac sha256 transferKeys
    (.new (850 * nanosPerSec))

variable (hmac sha256 fudge) in
/-- The cache after the other message, at second 1150. -/
def cacheAt1150 : ReplayCache :=
  (callAt hmac fudge [2] 1150 (by decide)).after hmac sha256 transferKeys
    (cacheAt850 hmac sha256 fudge)

variable (hmac sha256 fudge) in
/-- The message, another one that sweeps it out, and the message again. -/
def sweptRun : VerifyRun :=
  [(.new (850 * nanosPerSec), callAt hmac fudge [1] 850 (by decide)),
    (cacheAt850 hmac sha256 fudge, callAt hmac fudge [2] 1150 (by decide)),
    (cacheAt1150 hmac sha256 fudge, callAt hmac fudge [1] 1150 (by decide))]

variable (hmac sha256 fudge) in
theorem exec_sweptRun : ∃ c, (tsigSystem hmac sha256 transferKeys).Exec
    (sweptRun hmac sha256 fudge) c := by
  have hnil : (tsigSystem hmac sha256 transferKeys).Exec [] (.new (850 * nanosPerSec)) :=
    .nil ⟨_, rfl⟩
  exact ⟨_, ((hnil.snoc rfl).snoc rfl).snoc rfl⟩

theorem nondecreasingClock_sweptRun : NondecreasingClock (sweptRun hmac sha256 fudge) := by
  simp [NondecreasingClock, sweptRun, callAt, clockAt, nanosPerSec]

variable (hmac sha256) in
theorem accepts_first (hwide : 150 ≤ fudge.toNat) :
    (callAt hmac fudge [1] 850 (by decide)).accepts hmac sha256 transferKeys
      (.new (850 * nanosPerSec)) = true :=
  accepts_callAt hwide rfl

/-- No time has elapsed, so the first insertion does not sweep. -/
theorem cacheAt850_eq (hwide : 150 ≤ fudge.toNat) :
    cacheAt850 hmac sha256 fudge =
      ⟨(∅ : Table Bytes Nat).insert (sha256 (signedAt1000 hmac fudge [1]).mac)
        (850 * nanosPerSec), 850 * nanosPerSec⟩ := by
  have hearly : ¬ (850 * nanosPerSec - 850 * nanosPerSec) / nanosPerSec ≥
      tsigReplayCacheTtlSecs := by decide
  have hsweep : (ReplayCache.new (850 * nanosPerSec)).sweep
      (callAt hmac fudge [1] 850 (by decide)).clock = .new (850 * nanosPerSec) := if_neg hearly
  unfold cacheAt850
  rw [VerifyCall.after_of_accepts (accepts_first hmac sha256 hwide), ReplayCache.insert, hsweep]
  rfl

theorem accepts_other (hhmac : ∀ algorithm secret, Function.Injective (hmac algorithm secret))
    (hsha : Function.Injective sha256) (hwide : 150 ≤ fudge.toNat) :
    (callAt hmac fudge [2] 1150 (by decide)).accepts hmac sha256 transferKeys
      (cacheAt850 hmac sha256 fudge) = true := by
  refine accepts_callAt hwide ?_
  rw [cacheAt850_eq hwide, Table.lookup_insert_eq, if_neg (macHash_ne hhmac hsha).symm]
  rfl

/-- The first message is exactly as old as the sweep allows. -/
theorem lookup_cacheAt1150
    (hhmac : ∀ algorithm secret, Function.Injective (hmac algorithm secret))
    (hsha : Function.Injective sha256) (hwide : 150 ≤ fudge.toNat) :
    (cacheAt1150 hmac sha256 fudge).entries.lookup
      (sha256 (signedAt1000 hmac fudge [1]).mac) = none := by
  have hlate : (1150 * nanosPerSec - 850 * nanosPerSec) / nanosPerSec ≥
      tsigReplayCacheTtlSecs := by decide
  have hold : ¬ 850 * nanosPerSec > 1150 * nanosPerSec - replayCacheTtl := by decide
  unfold cacheAt1150
  rw [VerifyCall.after_of_accepts (accepts_other hhmac hsha hwide), ReplayCache.insert_of_room,
    Table.lookup_insert_eq]
  · have hsweep : (cacheAt850 hmac sha256 fudge).sweep
        (callAt hmac fudge [2] 1150 (by decide)).clock =
          (cacheAt850 hmac sha256 fudge).cleanupExpired
            (callAt hmac fudge [2] 1150 (by decide)).clock := by
      rw [cacheAt850_eq hwide]
      exact if_pos hlate
    have hne : sha256 (signedAt1000 hmac fudge [1]).mac ≠
        sha256 (callAt hmac fudge [2] 1150 (by decide)).tsig.mac := macHash_ne hhmac hsha
    rw [if_neg hne, hsweep, cacheAt850_eq hwide, ReplayCache.cleanupExpired,
      Table.lookup_traverse, Table.lookup_insert_eq, if_pos rfl, Option.bind_some, if_neg]
    exact hold
  · rw [cacheAt850_eq hwide, Table.length_insert, AList.lookup_empty]
    simp [maxReplayCacheSize]

/-- The message is accepted twice. -/
theorem acceptedCalls_sweptRun
    (hhmac : ∀ algorithm secret, Function.Injective (hmac algorithm secret))
    (hsha : Function.Injective sha256) (hwide : 150 ≤ fudge.toNat) :
    acceptedCalls hmac sha256 transferKeys (sweptRun hmac sha256 fudge) =
      [callAt hmac fudge [1] 850 (by decide), callAt hmac fudge [2] 1150 (by decide),
        callAt hmac fudge [1] 1150 (by decide)] := by
  have hfirst := accepts_first hmac sha256 hwide
  have hother := accepts_other hhmac hsha hwide
  have hagain : (callAt hmac fudge [1] 1150 (by decide)).accepts hmac sha256 transferKeys
      (cacheAt1150 hmac sha256 fudge) = true :=
    accepts_callAt hwide (lookup_cacheAt1150 hhmac hsha hwide)
  simp [acceptedCalls, sweptRun, hfirst, hother, hagain]

end sweep

/-! ## Section 6: Replay protection -/

/-- Messages with this fudge are accepted at most once: in every run in which
    the clock does not run backwards and fewer messages are accepted than the
    cache has room for. -/
def AcceptedOnce (hmac : Hmac) (sha256 : Bytes → Bytes) (fudge : UInt16) : Prop :=
  ∀ keys tr c, (tsigSystem hmac sha256 keys).Exec tr c → NondecreasingClock tr →
    (acceptedCalls hmac sha256 keys tr).length ≤ maxReplayCacheSize - 1 →
    ∀ m : SignedMessage, m.fudge = fudge → (acceptedMessages hmac sha256 keys tr).count m ≤ 1

section sweep

variable {hmac : Hmac} {sha256 : Bytes → Bytes} {fudge : UInt16}

/-- A window of 300 seconds or more has room for the sweep. -/
theorem count_sweptRun (hhmac : ∀ algorithm secret, Function.Injective (hmac algorithm secret))
    (hsha : Function.Injective sha256) (hwide : 150 ≤ fudge.toNat) :
    (acceptedMessages hmac sha256 transferKeys (sweptRun hmac sha256 fudge)).count
      (callAt hmac fudge [1] 850 (by decide)).signed = 2 := by
  have hne : (callAt hmac fudge [2] 1150 (by decide)).signed ≠
      (callAt hmac fudge [1] 850 (by decide)).signed := by
    intro heq
    have hmessage : ([2] : Bytes) = [1] := congrArg SignedMessage.message heq
    cases hmessage
  have hsame : (callAt hmac fudge [1] 1150 (by decide)).signed =
      (callAt hmac fudge [1] 850 (by decide)).signed := rfl
  rw [acceptedMessages, acceptedCalls_sweptRun hhmac hsha hwide]
  simp [hsame, hne]

theorem length_acceptedCalls_sweptRun
    (hhmac : ∀ algorithm secret, Function.Injective (hmac algorithm secret))
    (hsha : Function.Injective sha256) (hwide : 150 ≤ fudge.toNat) :
    (acceptedCalls hmac sha256 transferKeys (sweptRun hmac sha256 fudge)).length ≤
      maxReplayCacheSize - 1 := by
  rw [acceptedCalls_sweptRun hhmac hsha hwide]
  simp [maxReplayCacheSize]

end sweep

/-- **Replay protection.** With injective HMAC and SHA-256, messages are accepted
    at most once exactly for the fudges whose window is narrower than the age at
    which the cache forgets. -/
theorem accepted_once_iff {hmac : Hmac} {sha256 : Bytes → Bytes}
    (hhmac : ∀ algorithm secret, Function.Injective (hmac algorithm secret))
    (hsha : Function.Injective sha256) (fudge : UInt16) :
    AcceptedOnce hmac sha256 fudge ↔ 2 * fudge.toNat < tsigReplayCacheTtlSecs := by
  constructor
  · intro honce
    by_contra hwide
    have hwide' : 150 ≤ fudge.toNat := by
      unfold tsigReplayCacheTtlSecs at hwide
      omega
    obtain ⟨c, hexec⟩ := exec_sweptRun hmac sha256 fudge
    have hcount := honce transferKeys _ c hexec nondecreasingClock_sweptRun
      (length_acceptedCalls_sweptRun hhmac hsha hwide')
      (callAt hmac fudge [1] 850 (by decide)).signed rfl
    rw [count_sweptRun hhmac hsha hwide'] at hcount
    omega
  · rintro hnarrow keys tr c hexec hclock hfew m rfl
    exact count_acceptedMessages_le hexec hclock hfew hnarrow

theorem accepted_once_149 : AcceptedOnce (fun _ _ data => data) (fun data => data) 149 :=
  (accepted_once_iff (fun _ _ => Function.injective_id) Function.injective_id 149).mpr (by decide)

/-- With the fudge that `sign` itself uses, a message is accepted at second 850
    and again at second 1150. -/
theorem accepted_again :
    (∃ c, (tsigSystem (fun _ _ data => data) (fun data => data) transferKeys).Exec
      (sweptRun (fun _ _ data => data) (fun data => data) signFudge) c) ∧
    NondecreasingClock (sweptRun (fun _ _ data => data) (fun data => data) signFudge) ∧
    (acceptedCalls (fun _ _ data => data) (fun data => data) transferKeys
      (sweptRun (fun _ _ data => data) (fun data => data) signFudge)).length ≤
        maxReplayCacheSize - 1 ∧
    (acceptedMessages (fun _ _ data => data) (fun data => data) transferKeys
      (sweptRun (fun _ _ data => data) (fun data => data) signFudge)).count
        (callAt (fun _ _ data => data) signFudge [1] 850 (by decide)).signed = 2 := by
  have hhmac : ∀ (algorithm : TsigAlgorithmRuntime) (secret : Bytes),
      Function.Injective ((fun _ _ data => data : Hmac) algorithm secret) :=
    fun _ _ => Function.injective_id
  have hsha : Function.Injective fun data : Bytes => data := Function.injective_id
  have hwide : 150 ≤ signFudge.toNat := by decide
  exact ⟨exec_sweptRun _ _ _, nondecreasingClock_sweptRun,
    length_acceptedCalls_sweptRun hhmac hsha hwide, count_sweptRun hhmac hsha hwide⟩

end Synvoid.Dns
