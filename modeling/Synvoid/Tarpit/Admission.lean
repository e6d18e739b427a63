import Synvoid.Framework.IpAddr
import Synvoid.Framework.Table
import Synvoid.Framework.Threads

/-! # Admission to the tarpit

    Model of `TarpitAdmission` and `AdmissionGuard`
    (`synvoid-tarpit/src/admission.rs`) under concurrent callers. Every access
    to a semaphore, to the map and to the counter is one step; an access to the
    map takes its lock. A guard that is dropped keeps the lock while it reads
    the semaphore and removes the entry, and the semaphore can be acquired by
    others in between.

    The global limit and the limit of each semaphore hold in every
    interleaving (`admission_limits`), and once all guards are dropped the map
    is empty again (`idle_map_empty`).

    The limit for an address needs more. A guard that is dropped may find all
    permits of its semaphore available, and go on to take it out of the map,
    while another call has already looked it up (`Orphans`); that call is then
    admitted by a semaphore that the next one does not see. Without such a read
    the limit holds (`per_ip_limit`), with one it may not
    (`per_ip_limit_exceeded`).
-/

namespace Synvoid.Tarpit

open Synvoid.Framework

/-! ## Section 1: The model -/

/-- `TarpitAdmission`: the semaphores with their available permits. A semaphore
    made for an address is known by its number, as by its `Arc`. -/
structure TarpitAdmission where
  global : Nat
  ipMap : Table IpAddr Nat
  locked : Bool
  semaphores : List Nat
  maxPerIp : Nat
  activeCount : Nat

def TarpitAdmission.new (maxConcurrent maxPerIp : Nat) : TarpitAdmission where
  global := maxConcurrent
  ipMap := ∅
  locked := false
  semaphores := []
  maxPerIp := maxPerIp
  activeCount := 0

/-- The next access of a call of `try_admit` and of the guard that it returns. -/
inductive AdmitPoint where
  /-- `try_acquire_owned` of the global semaphore. -/
  | acquireGlobal (ip : IpAddr)
  /-- `entry(ip).or_insert_with(..).clone()` under the lock. -/
  | lookup (ip : IpAddr)
  /-- `try_acquire_owned` of the semaphore of the address. -/
  | acquireIp (ip : IpAddr) (sema : Nat)
  /-- `drop(global_permit)` of a call that is refused. -/
  | dropGlobal
  | rejected
  /-- `fetch_add` of `active_count`. -/
  | count (ip : IpAddr) (sema : Nat)
  /-- The guard is held; its next access is `_ip.take()` when it is dropped. -/
  | guard (ip : IpAddr) (sema : Nat)
  /-- `lock`, and the comparison of the entry with the guard's semaphore. -/
  | lockEntry (ip : IpAddr) (sema : Nat)
  /-- `available_permits`, under the lock. -/
  | readPermits (ip : IpAddr) (sema : Nat)
  /-- `map.remove`, under the lock. -/
  | removeEntry (ip : IpAddr) (sema : Nat)
  /-- `fetch_sub` of `active_count`, still under the lock. -/
  | uncount
  /-- The end of the lock. -/
  | unlock
  /-- The drop of the field `_global`. -/
  | releaseGlobal
  | dropped
  deriving DecidableEq

/-- One access. Nothing is left to decide for the environment. -/
def advance (_ : Unit) (a : TarpitAdmission) : AdmitPoint → Option (TarpitAdmission × AdmitPoint)
  | .acquireGlobal ip =>
      if a.global = 0 then some (a, .rejected)
      else some ({ a with global := a.global - 1 }, .lookup ip)
  | .lookup ip =>
      if a.locked then none
      else
        match a.ipMap.lookup ip with
        | some sema => some (a, .acquireIp ip sema)
        | none =>
            some ({ a with
                ipMap := a.ipMap.insert ip a.semaphores.length
                semaphores := a.semaphores ++ [a.maxPerIp] },
              .acquireIp ip a.semaphores.length)
  | .acquireIp ip sema =>
      a.semaphores[sema]?.map fun available =>
        if available = 0 then (a, .dropGlobal)
        else ({ a with semaphores := a.semaphores.set sema (available - 1) }, .count ip sema)
  | .dropGlobal => some ({ a with global := a.global + 1 }, .rejected)
  | .rejected => none
  | .count ip sema => some ({ a with activeCount := a.activeCount + 1 }, .guard ip sema)
  | .guard ip sema =>
      a.semaphores[sema]?.map fun available =>
        ({ a with semaphores := a.semaphores.set sema (available + 1) }, .lockEntry ip sema)
  | .lockEntry ip sema =>
      if a.locked then none
      else if a.ipMap.lookup ip = some sema then
        some ({ a with locked := true }, .readPermits ip sema)
      else some ({ a with locked := true }, .uncount)
  | .readPermits ip sema =>
      if a.semaphores[sema]? = some a.maxPerIp then some (a, .removeEntry ip sema)
      else some (a, .uncount)
  | .removeEntry ip _ => some ({ a with ipMap := a.ipMap.erase ip }, .uncount)
  | .uncount => some ({ a with activeCount := a.activeCount - 1 }, .unlock)
  | .unlock => some ({ a with locked := false }, .releaseGlobal)
  | .releaseGlobal => some ({ a with global := a.global + 1 }, .dropped)
  | .dropped => none

/-- The interleavings of any number of calls and guards. -/
def admissionSystem (maxConcurrent maxPerIp : Nat) :
    System (Shared TarpitAdmission AdmitPoint) (Turn IpAddr Unit) :=
  Shared.system AdmitPoint.acquireGlobal advance (.new maxConcurrent maxPerIp)

/-- `active_count_for_ip`. -/
def TarpitAdmission.activeCountForIp (a : TarpitAdmission) (ip : IpAddr) : Nat :=
  match a.ipMap.lookup ip with
  | some sema => a.maxPerIp - a.semaphores.getD sema a.maxPerIp
  | none => 0

/-! ## Section 2: The books -/

/-- The call or guard holds a global permit. -/
def holdsGlobal : AdmitPoint → Nat
  | .acquireGlobal _ | .rejected | .dropped => 0
  | _ => 1

/-- It holds a permit of this semaphore. -/
def holdsSema (sema : Nat) : AdmitPoint → Nat
  | .count _ other | .guard _ other => if other = sema then 1 else 0
  | _ => 0

/-- It is counted in `active_count`. -/
def isCounted : AdmitPoint → Nat
  | .guard _ _ | .lockEntry _ _ | .readPermits _ _ | .removeEntry _ _ | .uncount => 1
  | _ => 0

/-- It holds the lock of the map. -/
def holdsLock : AdmitPoint → Nat
  | .readPermits _ _ | .removeEntry _ _ | .uncount | .unlock => 1
  | _ => 0

/-- It is a guard that its caller holds. -/
def isGuard : AdmitPoint → Nat
  | .guard _ _ => 1
  | _ => 0

/-- It is a guard for this address. -/
def isGuardFor (ip : IpAddr) : AdmitPoint → Nat
  | .guard other _ => if other = ip then 1 else 0
  | _ => 0

/-- The address and the semaphore it works with. -/
def worksOn : AdmitPoint → Option (IpAddr × Nat)
  | .acquireIp ip sema | .count ip sema | .guard ip sema | .lockEntry ip sema
  | .readPermits ip sema | .removeEntry ip sema => some (ip, sema)
  | _ => none

variable {maxConcurrent maxPerIp : Nat}
  {tr : List (Shared TarpitAdmission AdmitPoint × Turn IpAddr Unit)}
  {s : Shared TarpitAdmission AdmitPoint}

/-- All that an access can do. -/
inductive Access (a : TarpitAdmission) : AdmitPoint → TarpitAdmission → AdmitPoint → Prop where
  | refuseGlobal (ip : IpAddr) : a.global = 0 → Access a (.acquireGlobal ip) a .rejected
  | takeGlobal (ip : IpAddr) : a.global ≠ 0 →
      Access a (.acquireGlobal ip) { a with global := a.global - 1 } (.lookup ip)
  | find (ip : IpAddr) (sema : Nat) : a.locked = false → a.ipMap.lookup ip = some sema →
      Access a (.lookup ip) a (.acquireIp ip sema)
  | make (ip : IpAddr) : a.locked = false → a.ipMap.lookup ip = none →
      Access a (.lookup ip)
        { a with
          ipMap := a.ipMap.insert ip a.semaphores.length
          semaphores := a.semaphores ++ [a.maxPerIp] }
        (.acquireIp ip a.semaphores.length)
  | refuseIp (ip : IpAddr) (sema : Nat) : a.semaphores[sema]? = some 0 →
      Access a (.acquireIp ip sema) a .dropGlobal
  | takeIp (ip : IpAddr) (sema available : Nat) : a.semaphores[sema]? = some (available + 1) →
      Access a (.acquireIp ip sema) { a with semaphores := a.semaphores.set sema available }
        (.count ip sema)
  | dropGlobal : Access a .dropGlobal { a with global := a.global + 1 } .rejected
  | count (ip : IpAddr) (sema : Nat) :
      Access a (.count ip sema) { a with activeCount := a.activeCount + 1 } (.guard ip sema)
  | giveIp (ip : IpAddr) (sema available : Nat) : a.semaphores[sema]? = some available →
      Access a (.guard ip sema) { a with semaphores := a.semaphores.set sema (available + 1) }
        (.lockEntry ip sema)
  | ownEntry (ip : IpAddr) (sema : Nat) : a.locked = false → a.ipMap.lookup ip = some sema →
      Access a (.lockEntry ip sema) { a with locked := true } (.readPermits ip sema)
  | otherEntry (ip : IpAddr) (sema : Nat) : a.locked = false → a.ipMap.lookup ip ≠ some sema →
      Access a (.lockEntry ip sema) { a with locked := true } .uncount
  | allAvailable (ip : IpAddr) (sema : Nat) : a.semaphores[sema]? = some a.maxPerIp →
      Access a (.readPermits ip sema) a (.removeEntry ip sema)
  | inUse (ip : IpAddr) (sema : Nat) : a.semaphores[sema]? ≠ some a.maxPerIp →
      Access a (.readPermits ip sema) a .uncount
  | remove (ip : IpAddr) (sema : Nat) :
      Access a (.removeEntry ip sema) { a with ipMap := a.ipMap.erase ip } .uncount
  | uncount : Access a .uncount { a with activeCount := a.activeCount - 1 } .unlock
  | unlock : Access a .unlock { a with locked := false } .releaseGlobal
  | releaseGlobal : Access a .releaseGlobal { a with global := a.global + 1 } .dropped

theorem advance_cases {env : Unit} {a a' : TarpitAdmission} {p p' : AdmitPoint}
    (h : advance env a p = some (a', p')) : Access a p a' p' := by
  unfold advance at h
  cases p with
  | acquireGlobal ip =>
    simp only at h
    split at h
    · next hzero =>
      obtain ⟨rfl, rfl⟩ := Prod.mk.inj (Option.some.inj h)
      exact .refuseGlobal ip hzero
    · next hpos =>
      obtain ⟨rfl, rfl⟩ := Prod.mk.inj (Option.some.inj h)
      exact .takeGlobal ip hpos
  | lookup ip =>
    simp only at h
    split at h
    · cases h
    · next hfree =>
      split at h
      · next sema hentry =>
        obtain ⟨rfl, rfl⟩ := Prod.mk.inj (Option.some.inj h)
        exact .find ip sema (Bool.eq_false_iff.mpr hfree) hentry
      · next hnone =>
        obtain ⟨rfl, rfl⟩ := Prod.mk.inj (Option.some.inj h)
        exact .make ip (Bool.eq_false_iff.mpr hfree) hnone
  | acquireIp ip sema =>
    obtain ⟨old, hold, hr⟩ := Option.map_eq_some_iff.mp h
    cases old with
    | zero =>
      obtain ⟨rfl, rfl⟩ := Prod.mk.inj hr
      exact .refuseIp ip sema hold
    | succ available =>
      obtain ⟨rfl, rfl⟩ := Prod.mk.inj hr
      exact .takeIp ip sema available hold
  | guard ip sema =>
    obtain ⟨old, hold, hr⟩ := Option.map_eq_some_iff.mp h
    obtain ⟨rfl, rfl⟩ := Prod.mk.inj hr
    exact .giveIp ip sema old hold
  | lockEntry ip sema =>
    simp only at h
    split at h
    · cases h
    · next hfree =>
      split at h
      · next hown =>
        obtain ⟨rfl, rfl⟩ := Prod.mk.inj (Option.some.inj h)
        exact .ownEntry ip sema (Bool.eq_false_iff.mpr hfree) hown
      · next hother =>
        obtain ⟨rfl, rfl⟩ := Prod.mk.inj (Option.some.inj h)
        exact .otherEntry ip sema (Bool.eq_false_iff.mpr hfree) hother
  | readPermits ip sema =>
    simp only at h
    split at h
    · next hfull =>
      obtain ⟨rfl, rfl⟩ := Prod.mk.inj (Option.some.inj h)
      exact .allAvailable ip sema hfull
    · next hinUse =>
      obtain ⟨rfl, rfl⟩ := Prod.mk.inj (Option.some.inj h)
      exact .inUse ip sema hinUse
  | removeEntry ip sema =>
    obtain ⟨rfl, rfl⟩ := Prod.mk.inj (Option.some.inj h)
    exact .remove ip sema
  | unlock =>
    obtain ⟨rfl, rfl⟩ := Prod.mk.inj (Option.some.inj h)
    exact .unlock
  | rejected => cases h
  | dropped => cases h
  | dropGlobal =>
    obtain ⟨rfl, rfl⟩ := Prod.mk.inj (Option.some.inj h)
    exact .dropGlobal
  | count ip sema =>
    obtain ⟨rfl, rfl⟩ := Prod.mk.inj (Option.some.inj h)
    exact .count ip sema
  | uncount =>
    obtain ⟨rfl, rfl⟩ := Prod.mk.inj (Option.some.inj h)
    exact .uncount
  | releaseGlobal =>
    obtain ⟨rfl, rfl⟩ := Prod.mk.inj (Option.some.inj h)
    exact .releaseGlobal

theorem Access.limit_eq {a a' : TarpitAdmission} {p p' : AdmitPoint} (h : Access a p a' p') :
    a'.maxPerIp = a.maxPerIp := by
  cases h <;> rfl

theorem maxPerIp_eq (h : (admissionSystem maxConcurrent maxPerIp).Exec tr s) :
    s.state.maxPerIp = maxPerIp := by
  refine Shared.invariant_of_access (fun s => s.state.maxPerIp = maxPerIp) rfl ?_ ?_ h
  · intro s arg ih
    exact ih
  · intro _ s i p env a p' _ ih _ hr
    exact (advance_cases hr).limit_eq.trans ih

theorem global_permits (h : (admissionSystem maxConcurrent maxPerIp).Exec tr s) :
    s.state.global + s.total holdsGlobal = maxConcurrent := by
  refine Shared.conserved holdsGlobal TarpitAdmission.global (fun _ => rfl) ?_ h
  intro env a p a' p' hr
  cases advance_cases hr with
  | takeGlobal ip hpos =>
    simp only [holdsGlobal]
    omega
  | _ => rfl

/-! ### Permits of one semaphore -/

/-- The permits of a semaphore that is not made yet are all available. -/
def TarpitAdmission.available (a : TarpitAdmission) (sema : Nat) : Nat :=
  a.semaphores.getD sema a.maxPerIp

theorem available_push (a : TarpitAdmission) (sema : Nat) :
    (a.semaphores ++ [a.maxPerIp]).getD sema a.maxPerIp = a.available sema := by
  unfold TarpitAdmission.available
  simp only [List.getD_eq_getElem?_getD, List.getElem?_append]
  split
  · rfl
  · next hlt =>
    rw [List.getElem?_eq_none (Nat.le_of_not_lt hlt)]
    cases sema - a.semaphores.length <;> simp

theorem available_set {a : TarpitAdmission} {sema old : Nat} (h : a.semaphores[sema]? = some old)
    (new other : Nat) : (a.semaphores.set sema new).getD other a.maxPerIp =
      if other = sema then new else a.available other := by
  obtain ⟨hlt, -⟩ := List.getElem?_eq_some_iff.mp h
  unfold TarpitAdmission.available
  simp only [List.getD_eq_getElem?_getD, List.getElem?_set]
  by_cases hother : sema = other
  · subst hother
    simp [hlt]
  · rw [if_neg hother, if_neg (Ne.symm hother)]

theorem available_eq {a : TarpitAdmission} {sema old : Nat} (h : a.semaphores[sema]? = some old) :
    a.available sema = old := by
  simp [TarpitAdmission.available, h]

/-- The permits of one semaphore, along one access. -/
theorem Access.available {a a' : TarpitAdmission} {p p' : AdmitPoint} (h : Access a p a' p')
    (sema : Nat) :
    a'.available sema + holdsSema sema p' = a.available sema + holdsSema sema p := by
  cases h with
  | make ip _ _ => exact congrArg (· + 0) (available_push a sema)
  | takeIp ip other available hold =>
    show (a.semaphores.set other available).getD sema a.maxPerIp +
      (if other = sema then 1 else 0) = _
    rw [available_set hold]
    by_cases hsema : sema = other
    · subst hsema
      rw [if_pos rfl, if_pos rfl, available_eq hold]
      rfl
    · rw [if_neg hsema, if_neg (Ne.symm hsema)]
      rfl
  | giveIp ip other available hold =>
    show (a.semaphores.set other (available + 1)).getD sema a.maxPerIp + 0 =
      a.available sema + (if other = sema then 1 else 0)
    rw [available_set hold]
    by_cases hsema : sema = other
    · subst hsema
      rw [if_pos rfl, if_pos rfl, available_eq hold]
    · rw [if_neg hsema, if_neg (Ne.symm hsema)]
  | _ => rfl

/-- No semaphore gives out more permits than it has. -/
theorem sema_permits (h : (admissionSystem maxConcurrent maxPerIp).Exec tr s) (sema : Nat) :
    s.state.available sema + s.total (holdsSema sema) = maxPerIp :=
  Shared.conserved (holdsSema sema) (fun a => a.available sema) (fun _ => rfl)
    (fun _ _ _ _ _ hr => (advance_cases hr).available sema) h

theorem activeCount_eq (h : (admissionSystem maxConcurrent maxPerIp).Exec tr s) :
    s.state.activeCount = s.total isCounted := by
  refine Shared.tally isCounted TarpitAdmission.activeCount rfl (fun _ => rfl) ?_ h
  intro env a p a' p' hle hr
  cases advance_cases hr with
  | uncount =>
    simp only [isCounted] at *
    omega
  | _ => rfl

/-- **The limits** in every interleaving: the guards and the calls that hold a
    global permit are at most as many as the global limit, the permits that
    each semaphore has given out at most as many as the limit of an address,
    and `active_count` counts the guards, with those that are being dropped. -/
theorem admission_limits (h : (admissionSystem maxConcurrent maxPerIp).Exec tr s) :
    s.total isGuard ≤ s.state.activeCount ∧ s.state.activeCount ≤ maxConcurrent ∧
      s.state.global ≤ maxConcurrent ∧
      ∀ sema, s.total (holdsSema sema) = maxPerIp - s.state.available sema := by
  have hglobal := global_permits h
  have hactive := activeCount_eq h
  have hguards : s.total isGuard ≤ s.total isCounted := by
    apply Shared.total_mono
    intro p _
    cases p <;> simp [isGuard, isCounted]
  have hcounted : s.total isCounted ≤ s.total holdsGlobal := by
    apply Shared.total_mono
    intro p _
    cases p <;> simp [isCounted, holdsGlobal]
  refine ⟨by omega, by omega, by omega, fun sema => ?_⟩
  have hsema := sema_permits h sema
  omega

/-! ## Section 3: The map -/

/-- Every semaphore was made for one address, and the calls, the guards and the
    entries that refer to it are of this address. -/
structure Owned (owner : List IpAddr) (s : Shared TarpitAdmission AdmitPoint) : Prop where
  length : owner.length = s.state.semaphores.length
  threads : ∀ p ∈ s.threads, ∀ ip sema, worksOn p = some (ip, sema) → owner[sema]? = some ip
  entries : ∀ ip sema, s.state.ipMap.lookup ip = some sema → owner[sema]? = some ip

theorem Owned.access {owner : List IpAddr} (h : Owned owner s) {i : Nat} {p p' : AdmitPoint}
    {a : TarpitAdmission} (hp : s.threads[i]? = some p) (hr : Access s.state p a p') :
    ∃ owner', Owned owner' { state := a, threads := s.threads.set i p' } := by
  have hmem := List.mem_of_getElem? hp
  cases hr with
  | find ip sema _ hentry =>
    refine ⟨owner, h.length, Shared.forall_set h.threads ?_, h.entries⟩
    intro ip' sema' heq
    obtain ⟨rfl, rfl⟩ := Prod.mk.inj (Option.some.inj heq)
    exact h.entries ip sema hentry
  | make ip _ hnone =>
    have hold : ∀ {sema : Nat} {ip' : IpAddr}, owner[sema]? = some ip' →
        (owner ++ [ip])[sema]? = some ip' := by
      intro sema ip' heq
      obtain ⟨hlt, -⟩ := List.getElem?_eq_some_iff.mp heq
      rw [List.getElem?_append_left hlt, heq]
    have hnew : (owner ++ [ip])[s.state.semaphores.length]? = some ip := by
      rw [← h.length, List.getElem?_concat_length]
    refine ⟨owner ++ [ip], by simp [h.length], Shared.forall_set ?_ ?_, ?_⟩
    · intro q hq ip' sema' heq
      exact hold (h.threads q hq ip' sema' heq)
    · intro ip' sema' heq
      obtain ⟨rfl, rfl⟩ := Prod.mk.inj (Option.some.inj heq)
      exact hnew
    · intro ip' sema' heq
      simp only [Table.lookup_insert_eq] at heq
      split at heq
      · next hip =>
        obtain rfl := Option.some.inj heq
        rw [hip]
        exact hnew
      · exact hold (h.entries ip' sema' heq)
  | takeIp ip sema available hold =>
    refine ⟨owner, by simpa using h.length, Shared.forall_set h.threads ?_, h.entries⟩
    exact fun ip' sema' heq => h.threads _ hmem ip' sema' heq
  | count ip sema =>
    refine ⟨owner, h.length, Shared.forall_set h.threads ?_, h.entries⟩
    exact fun ip' sema' heq => h.threads _ hmem ip' sema' heq
  | giveIp ip sema available hold =>
    refine ⟨owner, by simpa using h.length, Shared.forall_set h.threads ?_, h.entries⟩
    exact fun ip' sema' heq => h.threads _ hmem ip' sema' heq
  | ownEntry ip sema _ hentry =>
    refine ⟨owner, h.length, Shared.forall_set h.threads ?_, h.entries⟩
    exact fun ip' sema' heq => h.threads _ hmem ip' sema' heq
  | allAvailable ip sema _ =>
    refine ⟨owner, h.length, Shared.forall_set h.threads ?_, h.entries⟩
    exact fun ip' sema' heq => h.threads _ hmem ip' sema' heq
  | remove ip sema =>
    refine ⟨owner, h.length, Shared.forall_set h.threads ?_, ?_⟩
    · exact fun ip' sema' heq => nomatch heq
    · intro ip' sema' heq
      rw [Table.lookup_erase_eq] at heq
      split at heq
      · cases heq
      · exact h.entries ip' sema' heq
  | _ =>
    refine ⟨owner, h.length, Shared.forall_set h.threads ?_, h.entries⟩
    exact fun ip' sema' heq => nomatch heq

theorem owned (h : (admissionSystem maxConcurrent maxPerIp).Exec tr s) :
    ∃ owner, Owned owner s := by
  refine Shared.invariant_of_access (fun s => ∃ owner, Owned owner s) ?_ ?_ ?_ h
  · refine ⟨[], rfl, ?_, ?_⟩
    · intro p hp
      cases hp
    · intro ip sema heq
      simp [TarpitAdmission.new] at heq
  · intro s arg ⟨owner, hlength, hthreads, hentries⟩
    refine ⟨owner, hlength, ?_, hentries⟩
    intro p hp ip sema heq
    rcases List.mem_append.mp hp with hp | hp
    · exact hthreads p hp ip sema heq
    · rw [List.mem_singleton.mp hp] at heq
      cases heq
  · intro _ s i p env a p' _ ⟨owner, howned⟩ hp hr
    exact howned.access hp (advance_cases hr)

/-- Somebody works with the semaphore of every entry. -/
def EntriesInUse (s : Shared TarpitAdmission AdmitPoint) : Prop :=
  ∀ ip sema, s.state.ipMap.lookup ip = some sema → ∃ p ∈ s.threads, worksOn p = some (ip, sema)

/-- A permit that was given out is held by a call or guard of the address. -/
theorem exists_holder (h : (admissionSystem maxConcurrent maxPerIp).Exec tr s) {ip : IpAddr}
    {sema : Nat} (hentry : s.state.ipMap.lookup ip = some sema)
    (hgiven : s.state.available sema ≠ maxPerIp) :
    ∃ p ∈ s.threads, worksOn p = some (ip, sema) ∧ 0 < holdsSema sema p := by
  obtain ⟨owner, howned⟩ := owned h
  have hpermits := sema_permits h sema
  obtain ⟨p, hp, hholds⟩ := Shared.exists_of_total_pos (by omega : 0 < s.total (holdsSema sema))
  -- the semaphore of the entry has one owner
  have hsame : ∀ ip', owner[sema]? = some ip' → ip' = ip := by
    intro ip' heq
    rw [howned.entries ip sema hentry] at heq
    exact (Option.some.inj heq).symm
  refine ⟨p, hp, ?_, hholds⟩
  cases p with
  | count ip' other =>
    obtain rfl : other = sema := by
      by_contra hne
      simp [holdsSema, hne] at hholds
    rw [← hsame ip' (howned.threads _ hp ip' other rfl)]
    rfl
  | guard ip' other =>
    obtain rfl : other = sema := by
      by_contra hne
      simp [holdsSema, hne] at hholds
    rw [← hsame ip' (howned.threads _ hp ip' other rfl)]
    rfl
  | _ => exact absurd hholds (Nat.lt_irrefl 0)

/-- The entries of before that an access keeps are still in use if the call that
    moves goes on with the same semaphore. -/
theorem EntriesInUse.of_same (h : EntriesInUse s) {i : Nat} {p p' : AdmitPoint}
    {a : TarpitAdmission} (hp : s.threads[i]? = some p)
    (hworks : worksOn p = none ∨ worksOn p' = worksOn p)
    (hmap : a.ipMap = s.state.ipMap) :
    EntriesInUse { state := a, threads := s.threads.set i p' } := by
  intro ip sema hentry
  rw [hmap] at hentry
  obtain ⟨q, hq, hqworks⟩ := h ip sema hentry
  by_cases hqp : q = p
  · subst hqp
    rcases hworks with hworks | hworks
    · rw [hworks] at hqworks
      cases hqworks
    · exact ⟨p', Shared.mem_set_self hp p', hworks.trans hqworks⟩
  · exact ⟨q, Shared.mem_set_of_ne hp hq hqp, hqworks⟩

/-- A call that leaves an entry of which a permit is given out. -/
theorem EntriesInUse.of_leave (h : EntriesInUse s)
    (hexec : (admissionSystem maxConcurrent maxPerIp).Exec tr s) {i : Nat} {p p' : AdmitPoint}
    {a : TarpitAdmission} (hp : s.threads[i]? = some p) {ip : IpAddr} {sema : Nat}
    (hworks : worksOn p = some (ip, sema)) (hholds : holdsSema sema p = 0)
    (hgiven : s.state.ipMap.lookup ip = some sema → s.state.available sema ≠ maxPerIp)
    (hmap : a.ipMap = s.state.ipMap) :
    EntriesInUse { state := a, threads := s.threads.set i p' } := by
  intro ip' sema' hentry
  rw [hmap] at hentry
  obtain ⟨q, hq, hqworks⟩ := h ip' sema' hentry
  by_cases hqp : q = p
  · subst hqp
    -- another one holds a permit of the semaphore
    obtain ⟨rfl, rfl⟩ := Prod.mk.inj (Option.some.inj (hworks.symm.trans hqworks))
    obtain ⟨r, hr, hrworks, hrholds⟩ := exists_holder hexec hentry (hgiven hentry)
    have hne : r ≠ q := by
      intro heq
      rw [heq, hholds] at hrholds
      exact Nat.lt_irrefl 0 hrholds
    exact ⟨r, Shared.mem_set_of_ne hp hr hne, hrworks⟩
  · exact ⟨q, Shared.mem_set_of_ne hp hq hqp, hqworks⟩

theorem entriesInUse (hpos : 0 < maxPerIp)
    (h : (admissionSystem maxConcurrent maxPerIp).Exec tr s) : EntriesInUse s := by
  refine Shared.invariant_of_access EntriesInUse ?_ ?_ ?_ h
  · intro ip sema heq
    simp [TarpitAdmission.new] at heq
  · intro s arg ih ip sema hentry
    obtain ⟨p, hp, hworks⟩ := ih ip sema hentry
    exact ⟨p, List.mem_append_left _ hp, hworks⟩
  · intro tr s i p env a p' hexec ih hp hr
    cases advance_cases hr with
    | make ip _ hnone =>
      intro ip' sema' hentry
      rw [Table.lookup_insert_eq] at hentry
      split at hentry
      · next hip =>
        obtain rfl := Option.some.inj hentry
        rw [hip]
        exact ⟨_, Shared.mem_set_self hp _, rfl⟩
      · obtain ⟨q, hq, hqworks⟩ := ih ip' sema' hentry
        refine ⟨q, Shared.mem_set_of_ne hp hq ?_, hqworks⟩
        intro heq
        subst heq
        cases hqworks
    | refuseIp ip sema hzero =>
      -- no permit is left, so all are given out
      refine ih.of_leave hexec hp rfl rfl (fun _ => ?_) rfl
      rw [available_eq hzero]
      exact Nat.ne_of_lt hpos
    | remove ip sema =>
      intro ip' sema' hother
      rw [Table.lookup_erase_eq] at hother
      split at hother
      · cases hother
      · next hip =>
        obtain ⟨q, hq, hqworks⟩ := ih ip' sema' hother
        refine ⟨q, Shared.mem_set_of_ne hp hq ?_, hqworks⟩
        intro heq
        subst heq
        obtain ⟨rfl, -⟩ := Prod.mk.inj (Option.some.inj hqworks)
        exact hip rfl
    | otherEntry ip sema _ hother =>
      exact ih.of_leave hexec hp rfl rfl (fun hentry => absurd hentry hother) rfl
    | inUse ip sema hinUse =>
      refine ih.of_leave hexec hp rfl rfl (fun hentry hall => hinUse ?_) rfl
      -- the semaphore of an entry was made before
      obtain ⟨owner, howned⟩ := owned hexec
      have hlt := (List.getElem?_eq_some_iff.mp (howned.entries ip sema hentry)).1
      rw [howned.length] at hlt
      have hsome := List.getElem?_eq_getElem hlt
      rw [hsome, ← available_eq hsome, hall, maxPerIp_eq hexec]
    | takeIp ip sema available hold => exact ih.of_same hp (.inr rfl) rfl
    | count ip sema => exact ih.of_same hp (.inr rfl) rfl
    | giveIp ip sema available hold => exact ih.of_same hp (.inr rfl) rfl
    | ownEntry ip sema _ hentry => exact ih.of_same hp (.inr rfl) rfl
    | allAvailable ip sema _ => exact ih.of_same hp (.inr rfl) rfl
    | _ => exact ih.of_same hp (.inl rfl) rfl

/-- **Nothing is left behind**: with a limit for an address above zero, when
    every call has been refused or its guard dropped, the map is empty, all
    permits are back and the count is zero. -/
theorem idle_map_empty (hpos : 0 < maxPerIp)
    (h : (admissionSystem maxConcurrent maxPerIp).Exec tr s)
    (hidle : ∀ p ∈ s.threads, p = .rejected ∨ p = .dropped) :
    (∀ ip, s.state.ipMap.lookup ip = none) ∧ s.state.global = maxConcurrent ∧
      s.state.activeCount = 0 ∧ ∀ sema, s.state.available sema = maxPerIp := by
  have hzero : ∀ f : AdmitPoint → Nat, f .rejected = 0 → f .dropped = 0 → s.total f = 0 := by
    intro f hrejected hdropped
    rw [Shared.total_eq_zero_iff]
    intro p hp
    rcases hidle p hp with rfl | rfl
    · exact hrejected
    · exact hdropped
  refine ⟨?_, ?_, ?_, ?_⟩
  · intro ip
    cases hentry : s.state.ipMap.lookup ip with
    | none => rfl
    | some sema =>
      obtain ⟨p, hp, hworks⟩ := entriesInUse hpos h ip sema hentry
      rcases hidle p hp with rfl | rfl <;> cases hworks
  · have hpermits := global_permits h
    rw [hzero holdsGlobal rfl rfl] at hpermits
    exact hpermits
  · rw [activeCount_eq h]
    exact hzero isCounted rfl rfl
  · intro sema
    have hpermits := sema_permits h sema
    rw [hzero (holdsSema sema) rfl rfl] at hpermits
    exact hpermits

/-! ## Section 4: The limit for an address -/

/-- The access finds all permits of a semaphore available, so that the entry is
    removed next, while a call has looked the semaphore up and has not acquired
    it yet. -/
def Orphans (s : Shared TarpitAdmission AdmitPoint) : Turn IpAddr Unit → Prop
  | .call _ => False
  | .access i _ =>
      match s.threads[i]? with
      | some (.readPermits ip sema) =>
          s.state.semaphores[sema]? = some s.state.maxPerIp ∧ .acquireIp ip sema ∈ s.threads
      | _ => False

instance (s : Shared TarpitAdmission AdmitPoint) (turn : Turn IpAddr Unit) :
    Decidable (Orphans s turn) := by
  unfold Orphans
  split
  · infer_instance
  · split <;> infer_instance

/-- The lock is held by one call, or is free. -/
theorem lock_tally (h : (admissionSystem maxConcurrent maxPerIp).Exec tr s) :
    s.state.locked.toNat = s.total holdsLock := by
  refine Shared.tally holdsLock (fun a => a.locked.toNat) rfl (fun _ => rfl) ?_ h
  intro env a p a' p' hle hr
  cases advance_cases hr with
  | ownEntry ip sema hfree _ => simp [holdsLock, hfree]
  | otherEntry ip sema hfree _ => simp [holdsLock, hfree]
  | unlock =>
    have hlocked : a.locked = true := by
      cases hlock : a.locked with
      | true => rfl
      | false => simp [holdsLock, hlock] at hle
    simp [holdsLock, hlocked]
  | _ => rfl

theorem not_holdsLock_of_free (h : (admissionSystem maxConcurrent maxPerIp).Exec tr s)
    (hfree : s.state.locked = false) : ∀ p ∈ s.threads, holdsLock p = 0 := by
  have htally := lock_tally h
  rw [hfree] at htally
  exact (Shared.total_eq_zero_iff _ s).mp htally.symm

/-- Whoever holds the lock holds it alone. -/
theorem not_holdsLock_of_other (h : (admissionSystem maxConcurrent maxPerIp).Exec tr s) {i : Nat}
    {p p' q : AdmitPoint} (hp : s.threads[i]? = some p) (hlock : holdsLock p = 1)
    (hq : q ∈ s.threads.set i p') : q = p' ∨ holdsLock q = 0 := by
  have htally := lock_tally h
  have hle : s.state.locked.toNat ≤ 1 := Bool.toNat_le _
  have hrest := Shared.total_access holdsLock hp s.state .dropped
  rw [hlock, ← htally] at hrest
  have hzero : Shared.total holdsLock
      { state := s.state, threads := s.threads.set i .dropped } = 0 := by
    simp only [holdsLock] at hrest
    omega
  obtain ⟨j, hj⟩ := List.mem_iff_getElem?.mp hq
  rcases Shared.getElem?_set_cases hj with ⟨-, rfl⟩ | ⟨hne, hold⟩
  · exact .inl rfl
  · refine .inr ((Shared.total_eq_zero_iff _ _).mp hzero q (List.mem_iff_getElem?.mpr ⟨j, ?_⟩))
    rw [List.getElem?_set_ne (Ne.symm hne)]
    exact hold

/-- The address and the semaphore of a call that acquires, or has acquired. -/
def admittedBy : AdmitPoint → Option (IpAddr × Nat)
  | .acquireIp ip sema | .count ip sema | .guard ip sema => some (ip, sema)
  | _ => none

/-- The entry that a guard has found to be its own, under the lock. -/
def ownEntryOf : AdmitPoint → Option (IpAddr × Nat)
  | .readPermits ip sema | .removeEntry ip sema => some (ip, sema)
  | _ => none

/-- Calls and guards of an address work with the semaphore in the map. An entry
    that is about to be removed is that of its guard, and nobody works with it
    any more. -/
structure InMap (s : Shared TarpitAdmission AdmitPoint) : Prop where
  admitted : ∀ p ∈ s.threads, ∀ ip sema, admittedBy p = some (ip, sema) →
    s.state.ipMap.lookup ip = some sema
  own : ∀ p ∈ s.threads, ∀ ip sema, ownEntryOf p = some (ip, sema) →
    s.state.ipMap.lookup ip = some sema
  left : ∀ ip sema, .removeEntry ip sema ∈ s.threads →
    ∀ q ∈ s.threads, admittedBy q ≠ some (ip, sema)

/-- An access that leaves the map as it is and does not come to an entry of its
    own. -/
theorem InMap.of_same (h : InMap s) {i : Nat} {p p' : AdmitPoint} {a : TarpitAdmission}
    (hp : s.threads[i]? = some p) (hmap : a.ipMap = s.state.ipMap)
    (hadmitted : admittedBy p' = none ∨ admittedBy p' = admittedBy p)
    (hown : ownEntryOf p' = none) : InMap { state := a, threads := s.threads.set i p' } := by
  have hmem := List.mem_of_getElem? hp
  refine ⟨?_, ?_, ?_⟩
  · show ∀ q ∈ s.threads.set i p', ∀ ip sema, _ → a.ipMap.lookup ip = some sema
    rw [hmap]
    refine Shared.forall_set h.admitted ?_
    intro ip sema heq
    rcases hadmitted with hnone | hsame
    · rw [hnone] at heq
      cases heq
    · exact h.admitted p hmem ip sema (hsame ▸ heq)
  · show ∀ q ∈ s.threads.set i p', ∀ ip sema, _ → a.ipMap.lookup ip = some sema
    rw [hmap]
    refine Shared.forall_set h.own ?_
    intro ip sema heq
    rw [hown] at heq
    cases heq
  · intro ip sema hremove
    have hbefore : .removeEntry ip sema ∈ s.threads := by
      rcases List.mem_or_eq_of_mem_set hremove with hbefore | rfl
      · exact hbefore
      · cases hown
    refine Shared.forall_set (h.left ip sema hbefore) ?_
    rcases hadmitted with hnone | hsame
    · rw [hnone]
      exact fun heq => nomatch heq
    · rw [hsame]
      exact h.left ip sema hbefore p hmem

theorem InMap.call (h : InMap s) (arg : IpAddr) :
    InMap { s with threads := s.threads ++ [.acquireGlobal arg] } := by
  refine ⟨?_, ?_, ?_⟩
  · intro p hp ip sema heq
    rcases List.mem_append.mp hp with hp | hp
    · exact h.admitted p hp ip sema heq
    · rw [List.mem_singleton.mp hp] at heq
      cases heq
  · intro p hp ip sema heq
    rcases List.mem_append.mp hp with hp | hp
    · exact h.own p hp ip sema heq
    · rw [List.mem_singleton.mp hp] at heq
      cases heq
  · intro ip sema hremove q hq
    have hbefore : .removeEntry ip sema ∈ s.threads :=
      (List.mem_append.mp hremove).resolve_right fun hnew => nomatch List.mem_singleton.mp hnew
    rcases List.mem_append.mp hq with hq | hq
    · exact h.left ip sema hbefore q hq
    · rw [List.mem_singleton.mp hq]
      exact fun heq => nomatch heq

theorem ownEntryOf_eq_none {q : AdmitPoint} (h : holdsLock q = 0) : ownEntryOf q = none := by
  cases q with
  | readPermits ip sema => cases h
  | removeEntry ip sema => cases h
  | _ => rfl

/-- While the lock is free no guard stands at an entry of its own, and an access
    that keeps the entries and works with one of them keeps the calls at theirs. -/
theorem InMap.of_free (h : InMap s) (hexec : (admissionSystem maxConcurrent maxPerIp).Exec tr s)
    (hfree : s.state.locked = false) (i : Nat) {p' : AdmitPoint} {a : TarpitAdmission}
    (hkept : ∀ ip sema, s.state.ipMap.lookup ip = some sema → a.ipMap.lookup ip = some sema)
    (hadmitted : ∀ ip sema, admittedBy p' = some (ip, sema) → a.ipMap.lookup ip = some sema)
    (hown : ∀ ip sema, ownEntryOf p' = some (ip, sema) → a.ipMap.lookup ip = some sema)
    (hstays : ∀ ip sema, p' ≠ .removeEntry ip sema) :
    InMap { state := a, threads := s.threads.set i p' } := by
  have hnone : ∀ q ∈ s.threads, ownEntryOf q = none := by
    intro q hq
    exact ownEntryOf_eq_none (not_holdsLock_of_free hexec hfree q hq)
  refine ⟨Shared.forall_set ?_ hadmitted, Shared.forall_set ?_ hown, ?_⟩
  · intro q hq ip sema heq
    exact hkept ip sema (h.admitted q hq ip sema heq)
  · intro q hq ip sema heq
    rw [hnone q hq] at heq
    cases heq
  · intro ip sema hremove
    rcases List.mem_or_eq_of_mem_set hremove with hbefore | heq
    · cases hnone _ hbefore
    · exact absurd heq.symm (hstays ip sema)

/-- A guard that finds all permits available: a call of this address would hold one
    of them, or would be left behind with the semaphore. -/
theorem InMap.allAvailable (h : InMap s)
    (hexec : (admissionSystem maxConcurrent maxPerIp).Exec tr s) {i : Nat} {ip : IpAddr}
    {sema : Nat} (hp : s.threads[i]? = some (.readPermits ip sema))
    (hfull : s.state.semaphores[sema]? = some s.state.maxPerIp)
    (hleft : .acquireIp ip sema ∉ s.threads) :
    InMap { s with threads := s.threads.set i (.removeEntry ip sema) } := by
  refine ⟨Shared.forall_set h.admitted ?_, Shared.forall_set h.own ?_, ?_⟩
  · exact fun ip' sema' heq => nomatch heq
  · exact fun ip' sema' heq => h.own _ (List.mem_of_getElem? hp) ip' sema' heq
  · intro ip' sema' hremove
    -- no other guard holds the lock, so the entry is the one that was read
    have hsame : .removeEntry ip' sema' = AdmitPoint.removeEntry ip sema := by
      rcases not_holdsLock_of_other hexec hp rfl hremove with heq | hnone
      · exact heq
      · cases hnone
    obtain ⟨rfl, rfl⟩ := AdmitPoint.removeEntry.inj hsame
    refine Shared.forall_set ?_ fun heq => nomatch heq
    intro q hq heq
    have hfree : s.total (holdsSema sema') = 0 := by
      have hpermits := sema_permits hexec sema'
      rw [available_eq hfull, maxPerIp_eq hexec] at hpermits
      omega
    have hnone := (Shared.total_eq_zero_iff _ s).mp hfree q hq
    cases q with
    | acquireIp ip'' sema'' =>
      obtain ⟨rfl, rfl⟩ := Prod.mk.inj (Option.some.inj heq)
      exact hleft hq
    | count ip'' sema'' =>
      obtain ⟨rfl, rfl⟩ := Prod.mk.inj (Option.some.inj heq)
      simp [holdsSema] at hnone
    | guard ip'' sema'' =>
      obtain ⟨rfl, rfl⟩ := Prod.mk.inj (Option.some.inj heq)
      simp [holdsSema] at hnone
    | _ => cases heq

/-- Nobody works with the entry that a guard removes. -/
theorem InMap.remove (h : InMap s) (hexec : (admissionSystem maxConcurrent maxPerIp).Exec tr s)
    {i : Nat} {ip : IpAddr} {sema : Nat} (hp : s.threads[i]? = some (.removeEntry ip sema)) :
    InMap { state := { s.state with ipMap := s.state.ipMap.erase ip }
            threads := s.threads.set i .uncount } := by
  have hmem := List.mem_of_getElem? hp
  have hentry := h.own _ hmem ip sema rfl
  have hother : ∀ q ∈ s.threads.set i .uncount, ownEntryOf q = none := by
    intro q hq
    rcases not_holdsLock_of_other hexec hp rfl hq with rfl | hnone
    · rfl
    · exact ownEntryOf_eq_none hnone
  refine ⟨Shared.forall_set ?_ ?_, ?_, ?_⟩
  · intro q hq ip' sema' heq
    have hbefore := h.admitted q hq ip' sema' heq
    show (s.state.ipMap.erase ip).lookup ip' = some sema'
    rw [Table.lookup_erase_eq, if_neg]
    · exact hbefore
    · intro hip
      subst hip
      obtain rfl := Option.some.inj (hentry.symm.trans hbefore)
      exact h.left ip' sema hmem q hq heq
  · exact fun ip' sema' heq => nomatch heq
  · intro q hq ip' sema' heq
    rw [hother q hq] at heq
    cases heq
  · intro ip' sema' hremove
    cases hother _ hremove

theorem inMap (h : (admissionSystem maxConcurrent maxPerIp).Exec tr s)
    (hok : ∀ step ∈ tr, ¬ Orphans step.1 step.2) : InMap s := by
  refine Shared.invariant_while (fun s turn => ¬ Orphans s turn) InMap ?_ ?_ ?_ h hok
  · refine ⟨?_, ?_, ?_⟩
    · exact fun p hp => nomatch hp
    · exact fun p hp => nomatch hp
    · exact fun ip sema hp => nomatch hp
  · intro s arg ih
    exact ih.call arg
  · intro tr s i p env a p' hexec ih hturn hp hr
    cases advance_cases hr with
    | find ip sema hfree hentry =>
      refine ih.of_free hexec hfree i (fun _ _ => id) ?_ (fun _ _ heq => nomatch heq)
        (fun _ _ heq => nomatch heq)
      intro ip' sema' heq
      obtain ⟨rfl, rfl⟩ := Prod.mk.inj (Option.some.inj heq)
      exact hentry
    | make ip hfree hnone =>
      refine ih.of_free hexec hfree i ?_ ?_ (fun _ _ heq => nomatch heq)
        (fun _ _ heq => nomatch heq)
      · intro ip' sema' hentry
        rw [Table.lookup_insert_eq, if_neg]
        · exact hentry
        · intro hip
          rw [hip, hnone] at hentry
          cases hentry
      · intro ip' sema' heq
        obtain ⟨rfl, rfl⟩ := Prod.mk.inj (Option.some.inj heq)
        exact AList.lookup_insert _
    | takeIp ip sema available hold => exact ih.of_same hp rfl (.inr rfl) rfl
    | count ip sema => exact ih.of_same hp rfl (.inr rfl) rfl
    | ownEntry ip sema hfree hentry =>
      refine ih.of_free hexec hfree i (fun _ _ => id) (fun _ _ heq => nomatch heq) ?_
        (fun _ _ heq => nomatch heq)
      intro ip' sema' heq
      obtain ⟨rfl, rfl⟩ := Prod.mk.inj (Option.some.inj heq)
      exact hentry
    | allAvailable ip sema hfull =>
      refine ih.allAvailable hexec hp hfull fun hleft => hturn ?_
      simp only [Orphans, hp]
      exact ⟨hfull, hleft⟩
    | remove ip sema => exact ih.remove hexec hp
    | _ => exact ih.of_same hp rfl (.inl rfl) rfl

/-- **The limit for an address**: in a run in which no dropped guard finds a
    semaphore unused between the two accesses of a call that has looked it up,
    the guards of an address are at most as many as `active_count_for_ip` says,
    and these at most as many as the limit. -/
theorem per_ip_limit (h : (admissionSystem maxConcurrent maxPerIp).Exec tr s)
    (hok : ∀ step ∈ tr, ¬ Orphans step.1 step.2) (ip : IpAddr) :
    s.total (isGuardFor ip) ≤ s.state.activeCountForIp ip ∧
      s.state.activeCountForIp ip ≤ maxPerIp := by
  have hinMap := inMap h hok
  have hguard : ∀ p ∈ s.threads, 0 < isGuardFor ip p →
      ∃ sema, p = .guard ip sema ∧ s.state.ipMap.lookup ip = some sema := by
    intro p hp hpos
    cases p with
    | guard other sema =>
      obtain rfl : other = ip := by
        by_contra hne
        simp [isGuardFor, hne] at hpos
      exact ⟨sema, rfl, hinMap.admitted _ hp other sema rfl⟩
    | _ => exact absurd hpos (Nat.lt_irrefl 0)
  unfold TarpitAdmission.activeCountForIp
  cases hentry : s.state.ipMap.lookup ip with
  | none =>
    refine ⟨Nat.le_of_eq ((Shared.total_eq_zero_iff _ s).mpr ?_), Nat.zero_le _⟩
    intro p hp
    by_contra hne
    obtain ⟨sema, -, hlookup⟩ := hguard p hp (Nat.pos_of_ne_zero hne)
    rw [hentry] at hlookup
    cases hlookup
  | some sema =>
    -- all guards of the address hold a permit of the one semaphore
    have hle : s.total (isGuardFor ip) ≤ s.total (holdsSema sema) := by
      apply Shared.total_mono
      intro p hp
      rcases Nat.eq_zero_or_pos (isGuardFor ip p) with hzero | hpos
      · rw [hzero]
        exact Nat.zero_le _
      · obtain ⟨other, rfl, hlookup⟩ := hguard p hp hpos
        obtain rfl := Option.some.inj (hentry.symm.trans hlookup)
        simp [isGuardFor, holdsSema]
    have hpermits := sema_permits h sema
    have hlimit := maxPerIp_eq h
    show s.total (isGuardFor ip) ≤ s.state.maxPerIp - s.state.available sema ∧
      s.state.maxPerIp - s.state.available sema ≤ maxPerIp
    omega

/-! ### Runs -/

/-- The run of a list of turns. -/
def admissionRun (maxConcurrent maxPerIp : Nat) (turns : List (Turn IpAddr Unit)) :
    Option (Shared TarpitAdmission AdmitPoint) :=
  replay (Shared.next AdmitPoint.acquireGlobal advance) ⟨.new maxConcurrent maxPerIp, []⟩ turns

theorem exec_admissionRun {turns : List (Turn IpAddr Unit)}
    (h : admissionRun maxConcurrent maxPerIp turns = some s) :
    (admissionSystem maxConcurrent maxPerIp).Exec
      (traceOf (Shared.next AdmitPoint.acquireGlobal advance)
        ⟨.new maxConcurrent maxPerIp, []⟩ turns)
      s :=
  exec_traceOf (.nil rfl) turns h

/-- `n` accesses of one call. -/
def accesses (i n : Nat) : List (Turn IpAddr Unit) := List.replicate n (.access i ())

/-- The first guard is dropped and finds its permits available, the second call
    acquires the semaphore, the entry is removed, and the third call makes a new
    semaphore. -/
def orphaningRun (ip : IpAddr) : List (Turn IpAddr Unit) :=
  [.call ip] ++ accesses 0 4 ++ [.call ip] ++ accesses 1 2 ++ accesses 0 3 ++ accesses 1 2 ++
    accesses 0 4 ++ [.call ip] ++ accesses 2 4

/-- The limit for an address may be exceeded. -/
theorem per_ip_limit_exceeded : ∃ tr s ip, (admissionSystem 2 1).Exec tr s ∧
    s.total (isGuardFor ip) = 2 := by
  have hrun : ((admissionRun 2 1 (orphaningRun (.v4 ⟨[192, 0, 2, 1], rfl⟩))).map
      fun s => s.total (isGuardFor (.v4 ⟨[192, 0, 2, 1], rfl⟩))) = some 2 := by decide
  obtain ⟨s, hs, htotal⟩ := Option.map_eq_some_iff.mp hrun
  exact ⟨_, s, _, exec_admissionRun hs, htotal⟩

theorem admission_limits_two_guards : ∃ s,
    admissionRun 2 1 (orphaningRun (.v4 ⟨[192, 0, 2, 2], rfl⟩)) = some s ∧
      s.total isGuard ≤ s.state.activeCount ∧ s.state.activeCount ≤ 2 := by
  have hrun : (admissionRun 2 1 (orphaningRun (.v4 ⟨[192, 0, 2, 2], rfl⟩))).isSome = true := by
    decide
  obtain ⟨s, hs⟩ := Option.isSome_iff_exists.mp hrun
  have hlimits := admission_limits (exec_admissionRun hs)
  exact ⟨s, hs, hlimits.1, hlimits.2.1⟩

/-- Two guards of one address; a third call is refused. The first guard finds
    the semaphore in use, and the second one removes it. -/
def twoGuardsRun (ip : IpAddr) : List (Turn IpAddr Unit) :=
  [.call ip, .call ip] ++ accesses 0 4 ++ accesses 1 4 ++ [.call ip] ++ accesses 2 4 ++
    accesses 0 6 ++ accesses 1 7

theorem idle_map_empty_after_drop : ∃ s,
    admissionRun 3 2 (twoGuardsRun (.v4 ⟨[192, 0, 2, 3], rfl⟩)) = some s ∧
      s.threads = [.dropped, .dropped, .rejected] ∧
      s.state.ipMap.lookup (.v4 ⟨[192, 0, 2, 3], rfl⟩) = none := by
  have hrun : ((admissionRun 3 2 (twoGuardsRun (.v4 ⟨[192, 0, 2, 3], rfl⟩))).map
      Shared.threads) = some [.dropped, .dropped, .rejected] := by decide
  obtain ⟨s, hs, hthreads⟩ := Option.map_eq_some_iff.mp hrun
  refine ⟨s, hs, hthreads, (idle_map_empty (by decide) (exec_admissionRun hs) ?_).1 _⟩
  rw [hthreads]
  decide

/-- Two guards of an address whose limit is two, one of them after a guard that
    was dropped beside the other. -/
theorem per_ip_limit_two_guards : ∃ s,
    admissionRun 3 2 ([.call (.v4 ⟨[192, 0, 2, 4], rfl⟩), .call (.v4 ⟨[192, 0, 2, 4], rfl⟩)] ++
      accesses 0 4 ++ accesses 1 4 ++ accesses 0 6 ++ [.call (.v4 ⟨[192, 0, 2, 4], rfl⟩)] ++
      accesses 2 4) = some s ∧
      s.total (isGuardFor (.v4 ⟨[192, 0, 2, 4], rfl⟩)) = 2 ∧
      s.total (isGuardFor (.v4 ⟨[192, 0, 2, 4], rfl⟩)) ≤
        s.state.activeCountForIp (.v4 ⟨[192, 0, 2, 4], rfl⟩) := by
  have hrun : ((admissionRun 3 2 ([.call (.v4 ⟨[192, 0, 2, 4], rfl⟩),
      .call (.v4 ⟨[192, 0, 2, 4], rfl⟩)] ++ accesses 0 4 ++ accesses 1 4 ++ accesses 0 6 ++
      [.call (.v4 ⟨[192, 0, 2, 4], rfl⟩)] ++ accesses 2 4)).map
        fun s => s.total (isGuardFor (.v4 ⟨[192, 0, 2, 4], rfl⟩))) = some 2 := by decide
  obtain ⟨s, hs, htotal⟩ := Option.map_eq_some_iff.mp hrun
  exact ⟨s, hs, htotal, (per_ip_limit (exec_admissionRun hs) (by decide) _).1⟩

end Synvoid.Tarpit
