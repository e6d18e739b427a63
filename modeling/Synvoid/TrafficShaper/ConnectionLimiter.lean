import Synvoid.Framework.Counters
import Synvoid.Framework.IpAddr
import Synvoid.Framework.Transition

/-! # The connection limiter

    Model of `ConnectionLimiter` (`synvoid-waf/src/traffic_shaper/limiter.rs`).
    An acquisition raises one counter after the other and takes back what it has
    raised when a limit is reached. A release lowers the counters of the token's
    address and site.

    A token does not say whether it was acquired with a site limit, and only
    such acquisitions raise the counter of the site. So the release of another
    token for the same site lowers the counter for a connection it never
    counted. `accounting_exact_iff` says that this is the only way in which the
    counters go wrong.

    The operations are taken one after the other. The queue is left out.
-/

namespace Synvoid.TrafficShaper

open Synvoid.Framework

/-! ### The limiter -/

structure ConnectionLimitsConfig where
  maxConnections : UInt32
  maxConnectionsPerIp : UInt32
  connectionBurst : UInt32

structure ConnectionToken where
  siteId : Str
  clientIp : IpAddr
  acquiredAt : Nat
  deriving DecidableEq

inductive ConnectionLimitError where
  | globalLimitExceeded
  | perIpLimitExceeded
  | burstExceeded
  | siteLimitExceeded
  deriving DecidableEq, Repr

structure ConnectionLimiter where
  totalConnections : UInt32
  ipConnections : Counters IpAddr
  ipBurstTokens : Counters IpAddr
  siteConnections : Table Str (Counters IpAddr)
  siteTotalConnections : Counters Str

namespace ConnectionLimiter

def new : ConnectionLimiter where
  totalConnections := 0
  ipConnections := ∅
  ipBurstTokens := ∅
  siteConnections := ∅
  siteTotalConnections := ∅

variable (config : ConnectionLimitsConfig) (limiter : ConnectionLimiter)

def activeConnections : UInt32 := limiter.totalConnections

def activeConnectionsForIp (ip : IpAddr) : UInt32 := limiter.ipConnections.count ip

/-- The counter that site limits are compared with. -/
def siteTotal (siteId : Str) : UInt32 := limiter.siteTotalConnections.count siteId

def raiseTotal : ConnectionLimiter :=
  { limiter with totalConnections := limiter.totalConnections + 1 }

def lowerTotal : ConnectionLimiter :=
  { limiter with totalConnections := limiter.totalConnections - 1 }

def raiseSite (siteTracked : Bool) (siteId : Str) : ConnectionLimiter :=
  if siteTracked then
    { limiter with siteTotalConnections := limiter.siteTotalConnections.raise siteId }
  else limiter

def lowerSite (siteTracked : Bool) (siteId : Str) : ConnectionLimiter :=
  if siteTracked then
    { limiter with siteTotalConnections := limiter.siteTotalConnections.lower siteId }
  else limiter

def raiseIp (ip : IpAddr) : ConnectionLimiter :=
  { limiter with ipConnections := limiter.ipConnections.raise ip }

def lowerIp (ip : IpAddr) : ConnectionLimiter :=
  { limiter with ipConnections := limiter.ipConnections.lower ip }

/-- The address is counted at its site, and a burst token is taken if there is
    one. -/
def grant (siteTracked : Bool) (siteId : Str) (ip : IpAddr) : ConnectionLimiter :=
  let siteIps := (limiter.siteConnections.lookup siteId).getD ∅
  let siteConnections :=
    if siteTracked then limiter.siteConnections.insert siteId (siteIps.raise ip)
    else limiter.siteConnections
  let canBurst := limiter.ipBurstTokens.count ip
  let ipBurstTokens :=
    if canBurst > 0 then limiter.ipBurstTokens.insert ip (canBurst - 1)
    else limiter.ipBurstTokens
  { limiter with siteConnections, ipBurstTokens }

def tryAcquireWithLimits (now : Nat) (siteId : Str) (clientIp : IpAddr)
    (maxPerSite maxPerIp : Option UInt32) :
    Except ConnectionLimitError ConnectionToken × ConnectionLimiter :=
  let totalPrev := limiter.totalConnections
  let limiter := limiter.raiseTotal
  if totalPrev ≥ config.maxConnections then (.error .globalLimitExceeded, limiter.lowerTotal)
  else
    let effectiveMaxPerSite := maxPerSite.getD 10000
    let siteTracked := maxPerSite.isSome
    let sitePrev := limiter.siteTotal siteId
    let limiter := limiter.raiseSite siteTracked siteId
    if siteTracked ∧ sitePrev ≥ effectiveMaxPerSite then
      (.error .siteLimitExceeded, (limiter.lowerSite siteTracked siteId).lowerTotal)
    else
      let effectiveMaxPerIp := maxPerIp.getD config.maxConnectionsPerIp
      let ipPrev := limiter.activeConnectionsForIp clientIp
      let limiter := limiter.raiseIp clientIp
      if ipPrev ≥ effectiveMaxPerIp then
        (.error .perIpLimitExceeded,
          ((limiter.lowerIp clientIp).lowerSite siteTracked siteId).lowerTotal)
      else if ipPrev > config.connectionBurst ∧ limiter.ipBurstTokens.count clientIp = 0 then
        (.error .burstExceeded,
          ((limiter.lowerIp clientIp).lowerSite siteTracked siteId).lowerTotal)
      else
        (.ok { siteId, clientIp, acquiredAt := now }, limiter.grant siteTracked siteId clientIp)

def tryAcquire (now : Nat) (siteId : Str) (clientIp : IpAddr) :
    Except ConnectionLimitError ConnectionToken × ConnectionLimiter :=
  tryAcquireWithLimits config limiter now siteId clientIp none none

/-- The address and its site, behind the release of a token. -/
def releaseSiteIp (siteConnections : Table Str (Counters IpAddr)) (token : ConnectionToken) :
    Table Str (Counters IpAddr) :=
  match siteConnections.lookup token.siteId with
  | none => siteConnections
  | some siteIps =>
      let siteIps := siteIps.takeOne token.clientIp
      if siteIps.keys = [] then siteConnections.erase token.siteId
      else siteConnections.insert token.siteId siteIps

def release (token : ConnectionToken) : ConnectionLimiter where
  totalConnections :=
    if limiter.totalConnections = 0 then 0 else limiter.totalConnections - 1
  siteTotalConnections := limiter.siteTotalConnections.takeOne token.siteId
  ipConnections := limiter.ipConnections.takeOne token.clientIp
  ipBurstTokens :=
    -- the last connection of an address gives it new burst tokens
    if limiter.ipConnections.lookup token.clientIp = some 1 then
      limiter.ipBurstTokens.insert token.clientIp config.connectionBurst
    else limiter.ipBurstTokens
  siteConnections := releaseSiteIp limiter.siteConnections token

end ConnectionLimiter

/-! ### Runs -/

/-- A token that has not been released, and whether a site limit was given when
    it was acquired. -/
structure Held where
  token : ConnectionToken
  siteLimited : Bool
  deriving DecidableEq

structure State where
  limiter : ConnectionLimiter
  outstanding : List Held
  /-- The limit of the last successful acquisition with one, for each site. -/
  lastLimit : Table Str UInt32

inductive Op where
  | tryAcquire (now : Nat) (siteId : Str) (clientIp : IpAddr)
  | tryAcquireWithLimits (now : Nat) (siteId : Str) (clientIp : IpAddr)
      (maxPerSite maxPerIp : Option UInt32)
  | release (held : Held)

/-- The limits behind an acquisition. -/
def limitsAfter (lastLimit : Table Str UInt32) (siteId : Str) : Option UInt32 → Table Str UInt32
  | some limit => lastLimit.insert siteId limit
  | none => lastLimit

/-- The state behind an acquisition with the given result. -/
def State.acquired (s : State) (maxPerSite : Option UInt32)
    (result : Except ConnectionLimitError ConnectionToken × ConnectionLimiter) : State :=
  match result with
  | (.error _, limiter) => { s with limiter }
  | (.ok token, limiter) =>
      { limiter
        outstanding := s.outstanding ++ [{ token, siteLimited := maxPerSite.isSome }]
        lastLimit := limitsAfter s.lastLimit token.siteId maxPerSite }

def next (config : ConnectionLimitsConfig) (s : State) : Op → Option State
  | .tryAcquire now siteId clientIp =>
      some (s.acquired none (s.limiter.tryAcquire config now siteId clientIp))
  | .tryAcquireWithLimits now siteId clientIp maxPerSite maxPerIp =>
      some (s.acquired maxPerSite
        (s.limiter.tryAcquireWithLimits config now siteId clientIp maxPerSite maxPerIp))
  | .release held =>
      if held ∈ s.outstanding then
        some { s with
          limiter := s.limiter.release config held.token
          outstanding := s.outstanding.erase held }
      else none

def State.init : State where
  limiter := .new
  outstanding := []
  lastLimit := ∅

def system (config : ConnectionLimitsConfig) : System State Op :=
  System.ofNext .init (next config)

/-! ### What the counters should be -/

def heldFor (s : State) (ip : IpAddr) : Nat :=
  s.outstanding.countP fun held => held.token.clientIp = ip

def heldWithLimit (s : State) (siteId : Str) : Nat :=
  s.outstanding.countP fun held => held.siteLimited ∧ held.token.siteId = siteId

structure Exact (config : ConnectionLimitsConfig) (s : State) : Prop where
  total : s.limiter.activeConnections.toNat = s.outstanding.length
  bounded : s.limiter.activeConnections ≤ config.maxConnections
  perIp : ∀ ip, (s.limiter.activeConnectionsForIp ip).toNat = heldFor s ip
  perSite : ∀ siteId, (s.limiter.siteTotal siteId).toNat = heldWithLimit s siteId
  siteLimit : ∀ siteId limit, s.lastLimit.lookup siteId = some limit →
    s.limiter.siteTotal siteId ≤ limit

/-- The three kinds of counters are the same in both. -/
structure SameCounts (l l' : ConnectionLimiter) : Prop where
  total : l'.activeConnections = l.activeConnections
  perIp : ∀ ip, l'.activeConnectionsForIp ip = l.activeConnectionsForIp ip
  perSite : ∀ siteId, l'.siteTotal siteId = l.siteTotal siteId

/-- A failed acquisition leaves the counters as they were. -/
def KeepsOnFailure (config : ConnectionLimitsConfig) (s : State) : Op → Prop
  | .tryAcquire now siteId clientIp =>
      ∀ e, (s.limiter.tryAcquire config now siteId clientIp).1 = .error e →
        SameCounts s.limiter (s.limiter.tryAcquire config now siteId clientIp).2
  | .tryAcquireWithLimits now siteId clientIp maxPerSite maxPerIp =>
      let result := s.limiter.tryAcquireWithLimits config now siteId clientIp maxPerSite maxPerIp
      ∀ e, result.1 = .error e → SameCounts s.limiter result.2
  | .release _ => True

/-- No token acquired without a site limit is released while its site counts
    connections. -/
def CountedRelease (s : State) : Op → Prop
  | .release held => held.siteLimited = true ∨ s.limiter.siteTotal held.token.siteId = 0
  | _ => True

/-! ### What an acquisition does -/

namespace ConnectionLimiter

variable {config : ConnectionLimitsConfig} {limiter : ConnectionLimiter} {now : Nat}
  {siteId : Str} {clientIp : IpAddr} {maxPerSite maxPerIp : Option UInt32}

/-- The counters behind a successful acquisition. -/
structure Raised (limiter limiter' : ConnectionLimiter) (siteTracked : Bool) (siteId : Str)
    (clientIp : IpAddr) : Prop where
  total : limiter'.activeConnections = limiter.activeConnections + 1
  perIp : ∀ ip, limiter'.activeConnectionsForIp ip =
    limiter.activeConnectionsForIp ip + if ip = clientIp then 1 else 0
  perSite : ∀ site, limiter'.siteTotal site =
    limiter.siteTotal site + if siteTracked ∧ site = siteId then 1 else 0

theorem siteTotal_raiseSite (limiter : ConnectionLimiter) (siteId : Str) (siteTracked : Bool)
    (site : Str) :
    (limiter.raiseSite siteTracked siteId).siteTotal site =
      limiter.siteTotal site + if siteTracked ∧ site = siteId then 1 else 0 := by
  unfold raiseSite siteTotal
  cases siteTracked with
  | false => simp
  | true =>
    simp only [if_true, true_and]
    rw [Counters.count_raise]
    split
    · next hsite => rw [hsite]
    · rw [UInt32.add_zero]

theorem count_raise_ip (limiter : ConnectionLimiter) (clientIp ip : IpAddr) :
    (limiter.ipConnections.raise clientIp).count ip =
      limiter.ipConnections.count ip + if ip = clientIp then 1 else 0 := by
  rw [Counters.count_raise]
  split
  · next hip => rw [hip]
  · rw [UInt32.add_zero]

theorem raised_admit (siteTracked : Bool) :
    Raised limiter (((limiter.raiseTotal.raiseSite siteTracked siteId).raiseIp clientIp).grant
      siteTracked siteId clientIp) siteTracked siteId clientIp where
  total := by cases siteTracked <;> rfl
  perIp ip := by
    have hraise := count_raise_ip limiter clientIp ip
    cases siteTracked <;> exact hraise
  perSite site := siteTotal_raiseSite limiter.raiseTotal siteId siteTracked site

theorem siteTotal_lowerSite_raiseSite (limiter : ConnectionLimiter) (siteId : Str)
    (siteTracked : Bool) (site : Str) :
    ((limiter.raiseSite siteTracked siteId).lowerSite siteTracked siteId).siteTotal site =
      limiter.siteTotal site := by
  cases siteTracked with
  | false => rfl
  | true => exact Counters.count_lower_raise _ _ _

theorem sameCounts_total : SameCounts limiter limiter.raiseTotal.lowerTotal where
  total := UInt32.add_sub_cancel _ _
  perIp _ := rfl
  perSite _ := rfl

theorem sameCounts_site (siteTracked : Bool) :
    SameCounts limiter
      ((limiter.raiseTotal.raiseSite siteTracked siteId).lowerSite siteTracked siteId).lowerTotal
      where
  total := by
    cases siteTracked <;> exact UInt32.add_sub_cancel _ _
  perIp _ := by cases siteTracked <;> rfl
  perSite site := siteTotal_lowerSite_raiseSite limiter.raiseTotal siteId siteTracked site

theorem sameCounts_ip (siteTracked : Bool) :
    SameCounts limiter
      ((((limiter.raiseTotal.raiseSite siteTracked siteId).raiseIp clientIp).lowerIp
        clientIp).lowerSite siteTracked siteId).lowerTotal where
  total := by
    cases siteTracked <;> exact UInt32.add_sub_cancel _ _
  perIp ip := by
    have hlower := Counters.count_lower_raise limiter.ipConnections clientIp ip
    cases siteTracked <;> exact hlower
  perSite site := by
    have hlower := siteTotal_lowerSite_raiseSite limiter.raiseTotal siteId siteTracked site
    cases siteTracked <;> exact hlower

/-- An acquisition fails and changes nothing, or it is below the limits and
    raises the counters. -/
theorem acquire_cases (config : ConnectionLimitsConfig) (limiter : ConnectionLimiter) (now : Nat)
    (siteId : Str) (clientIp : IpAddr) (maxPerSite maxPerIp : Option UInt32) :
    let result := limiter.tryAcquireWithLimits config now siteId clientIp maxPerSite maxPerIp
    (∃ e, result.1 = .error e ∧ SameCounts limiter result.2) ∨
    result.1 = .ok { siteId, clientIp, acquiredAt := now } ∧
      limiter.activeConnections < config.maxConnections ∧
      (∀ limit, maxPerSite = some limit → limiter.siteTotal siteId < limit) ∧
      Raised limiter result.2 maxPerSite.isSome siteId clientIp := by
  unfold tryAcquireWithLimits
  simp only
  split
  · exact .inl ⟨_, rfl, sameCounts_total⟩
  · next htotal =>
    split
    · exact .inl ⟨_, rfl, sameCounts_site _⟩
    · next hsite =>
      split
      · exact .inl ⟨_, rfl, sameCounts_ip _⟩
      · split
        · exact .inl ⟨_, rfl, sameCounts_ip _⟩
        · refine .inr ⟨rfl, UInt32.not_le.mp htotal, ?_, raised_admit _⟩
          rintro limit rfl
          exact UInt32.not_le.mp fun hle => hsite ⟨rfl, hle⟩

end ConnectionLimiter

/-! ### Steps -/

variable {config : ConnectionLimitsConfig} {s s' : State} {held : Held}

theorem exact_of_sameCounts {limiter' : ConnectionLimiter} (hexact : Exact config s)
    (hsame : SameCounts s.limiter limiter') : Exact config { s with limiter := limiter' } where
  total := (congrArg UInt32.toNat hsame.total).trans hexact.total
  bounded := hsame.total ▸ hexact.bounded
  perIp ip := (congrArg UInt32.toNat (hsame.perIp ip)).trans (hexact.perIp ip)
  perSite site := (congrArg UInt32.toNat (hsame.perSite site)).trans (hexact.perSite site)
  siteLimit site limit hlimit := hsame.perSite site ▸ hexact.siteLimit site limit hlimit

/-- A counter that is below some limit does not wrap around. -/
theorem toNat_add_ite {p : Prop} [Decidable p] {x limit : UInt32} (h : p → x < limit) :
    (x + if p then 1 else 0).toNat = x.toNat + if p then 1 else 0 := by
  by_cases hp : p
  · have hlt := UInt32.lt_iff_toNat_lt.mp (h hp)
    have hmax := limit.toNat_lt
    rw [if_pos hp, if_pos hp, UInt32.toNat_add, Nat.mod_eq_of_lt]
    · rfl
    · exact Nat.lt_of_le_of_lt hlt hmax
  · rw [if_neg hp, if_neg hp, UInt32.add_zero, Nat.add_zero]

theorem exact_of_raised {limiter' : ConnectionLimiter} {token : ConnectionToken}
    {maxPerSite : Option UInt32} (hexact : Exact config s)
    (hroom : s.limiter.activeConnections < config.maxConnections)
    (hsite : ∀ limit, maxPerSite = some limit → s.limiter.siteTotal token.siteId < limit)
    (hraised : s.limiter.Raised limiter' maxPerSite.isSome token.siteId token.clientIp) :
    Exact config {
      limiter := limiter'
      outstanding := s.outstanding ++ [{ token, siteLimited := maxPerSite.isSome }]
      lastLimit := limitsAfter s.lastLimit token.siteId maxPerSite } := by
  have htotal : limiter'.activeConnections.toNat = s.limiter.activeConnections.toNat + 1 := by
    rw [hraised.total]
    exact toNat_add_ite (p := True) fun _ => hroom
  constructor
  · show limiter'.activeConnections.toNat = _
    rw [htotal, hexact.total, List.length_append]
    rfl
  · refine UInt32.le_iff_toNat_le.mpr ?_
    show limiter'.activeConnections.toNat ≤ _
    rw [htotal]
    exact UInt32.lt_iff_toNat_lt.mp hroom
  · intro ip
    have hbelow : s.limiter.activeConnectionsForIp ip < config.maxConnections := by
      -- an address has at most all tokens
      refine UInt32.lt_iff_toNat_lt.mpr ?_
      have hcount : heldFor s ip ≤ s.outstanding.length := List.countP_le_length
      rw [hexact.perIp]
      have hlt := UInt32.lt_iff_toNat_lt.mp hroom
      rw [hexact.total] at hlt
      omega
    show (limiter'.activeConnectionsForIp ip).toNat = _
    rw [hraised.perIp, toNat_add_ite fun _ => hbelow, hexact.perIp]
    unfold heldFor
    rw [List.countP_append, List.countP_singleton]
    simp [@eq_comm _ ip]
  · intro site
    show (limiter'.siteTotal site).toNat = _
    have hbelow : (maxPerSite.isSome = true ∧ site = token.siteId) →
        s.limiter.siteTotal site < maxPerSite.getD 0 := by
      rintro ⟨hsome, rfl⟩
      obtain ⟨limit, rfl⟩ := Option.isSome_iff_exists.mp hsome
      exact hsite limit rfl
    rw [hraised.perSite, toNat_add_ite hbelow, hexact.perSite]
    unfold heldWithLimit
    rw [List.countP_append, List.countP_singleton]
    simp [@eq_comm _ site]
  · intro site limit hlimit
    show limiter'.siteTotal site ≤ limit
    rw [hraised.perSite]
    cases maxPerSite with
    | none =>
      simp only [Option.isSome_none, Bool.false_eq_true, false_and, if_false, UInt32.add_zero]
      exact hexact.siteLimit site limit hlimit
    | some newLimit =>
      simp only [limitsAfter, Table.lookup_insert_eq] at hlimit
      by_cases hsame : site = token.siteId
      · rw [if_pos hsame] at hlimit
        cases hlimit
        rw [if_pos ⟨rfl, hsame⟩, hsame]
        refine UInt32.le_iff_toNat_le.mpr ?_
        have hlt := hsite _ rfl
        rw [show s.limiter.siteTotal token.siteId + 1 =
          s.limiter.siteTotal token.siteId + if True then 1 else 0 by simp,
          toNat_add_ite fun _ => hlt]
        exact UInt32.lt_iff_toNat_lt.mp hlt
      · rw [if_neg hsame] at hlimit
        rw [if_neg fun h => hsame h.2, UInt32.add_zero]
        exact hexact.siteLimit site limit hlimit

/-- Acquisitions keep the counters exact, and fail without changing them. -/
theorem exact_acquired (hexact : Exact config s) (now : Nat) (siteId : Str) (clientIp : IpAddr)
    (maxPerSite maxPerIp : Option UInt32) :
    Exact config (s.acquired maxPerSite
      (s.limiter.tryAcquireWithLimits config now siteId clientIp maxPerSite maxPerIp)) := by
  have hcases := ConnectionLimiter.acquire_cases config s.limiter now siteId clientIp maxPerSite
    maxPerIp
  generalize s.limiter.tryAcquireWithLimits config now siteId clientIp maxPerSite maxPerIp =
    result at hcases
  obtain ⟨outcome, limiter'⟩ := result
  rcases hcases with ⟨e, hfailed, hsame⟩ | ⟨hok, hroom, hsite, hraised⟩
  · obtain rfl : outcome = .error e := hfailed
    exact exact_of_sameCounts hexact hsame
  · obtain rfl : outcome = .ok { siteId, clientIp, acquiredAt := now } := hok
    exact exact_of_raised hexact hroom hsite hraised

theorem keepsOnFailure (config : ConnectionLimitsConfig) (s : State) (op : Op) :
    KeepsOnFailure config s op := by
  have hfailed : ∀ now siteId clientIp maxPerSite maxPerIp e,
      (s.limiter.tryAcquireWithLimits config now siteId clientIp maxPerSite maxPerIp).1 =
        .error e →
      SameCounts s.limiter
        (s.limiter.tryAcquireWithLimits config now siteId clientIp maxPerSite maxPerIp).2 := by
    intro now siteId clientIp maxPerSite maxPerIp e he
    rcases ConnectionLimiter.acquire_cases config s.limiter now siteId clientIp maxPerSite
      maxPerIp with ⟨-, -, hsame⟩ | ⟨hok, -⟩
    · exact hsame
    · rw [he] at hok
      cases hok
  cases op with
  | tryAcquire now siteId clientIp => exact hfailed now siteId clientIp none none
  | tryAcquireWithLimits now siteId clientIp maxPerSite maxPerIp =>
    exact hfailed now siteId clientIp maxPerSite maxPerIp
  | release held => trivial

/-- The state behind a release. -/
def released (config : ConnectionLimitsConfig) (s : State) (held : Held) : State :=
  { s with
    limiter := s.limiter.release config held.token
    outstanding := s.outstanding.erase held }

theorem countP_erase (p : Held → Bool) (hheld : held ∈ s.outstanding) :
    s.outstanding.countP p =
      (s.outstanding.erase held).countP p + if p held = true then 1 else 0 := by
  rw [(List.perm_cons_erase hheld).countP_eq, List.countP_cons]

theorem siteTotal_released (site : Str) :
    ((released config s held).limiter.siteTotal site).toNat =
      (s.limiter.siteTotal site).toNat - if site = held.token.siteId then 1 else 0 :=
  Counters.toNat_count_takeOne _ _ _

theorem heldWithLimit_released (config : ConnectionLimitsConfig) (hheld : held ∈ s.outstanding)
    (site : Str) :
    heldWithLimit s site = heldWithLimit (released config s held) site +
      if held.siteLimited = true ∧ held.token.siteId = site then 1 else 0 := by
  have hcount := countP_erase
    (fun h => decide (h.siteLimited = true ∧ h.token.siteId = site)) hheld
  simp only [decide_eq_true_eq] at hcount
  exact hcount

theorem heldFor_released (config : ConnectionLimitsConfig) (hheld : held ∈ s.outstanding)
    (ip : IpAddr) :
    heldFor s ip =
      heldFor (released config s held) ip + if held.token.clientIp = ip then 1 else 0 := by
  have hcount := countP_erase (fun h => decide (h.token.clientIp = ip)) hheld
  simp only [decide_eq_true_eq] at hcount
  exact hcount

theorem total_released :
    (released config s held).limiter.activeConnections.toNat =
      s.limiter.activeConnections.toNat - 1 := by
  show (if s.limiter.totalConnections = 0 then 0 else s.limiter.totalConnections - 1).toNat =
    s.limiter.totalConnections.toNat - 1
  split
  · next hzero => rw [hzero]; rfl
  · next hne =>
    have hpos : s.limiter.totalConnections.toNat ≠ 0 := fun h => hne (UInt32.toNat_inj.mp h)
    have hle : (1 : UInt32) ≤ s.limiter.totalConnections :=
      UInt32.le_iff_toNat_le.mpr (Nat.one_le_iff_ne_zero.mpr hpos)
    rw [UInt32.toNat_sub_of_le _ _ hle]
    rfl

/-- A release keeps the counters exact just if the counter of the site counts
    the token or is zero. -/
theorem exact_released_iff (hexact : Exact config s) (hheld : held ∈ s.outstanding) :
    Exact config (released config s held) ↔ CountedRelease s (.release held) := by
  constructor
  · intro hexact'
    by_cases hlimited : held.siteLimited = true
    · exact .inl hlimited
    · right
      have hbefore := hexact.perSite held.token.siteId
      have hafter := hexact'.perSite held.token.siteId
      have hsame := heldWithLimit_released config hheld held.token.siteId
      rw [siteTotal_released, if_pos rfl] at hafter
      rw [if_neg fun h => hlimited h.1] at hsame
      refine UInt32.toNat_inj.mp (show _ = 0 from ?_)
      omega
  · intro hcounted
    have hpos : 0 < s.outstanding.length := List.length_pos_of_mem hheld
    constructor
    · rw [total_released, hexact.total]
      exact (List.length_erase_of_mem hheld).symm
    · refine UInt32.le_iff_toNat_le.mpr ?_
      rw [total_released]
      exact Nat.le_trans (Nat.sub_le _ _) (UInt32.le_iff_toNat_le.mp hexact.bounded)
    · intro ip
      have hcount := heldFor_released config hheld ip
      rw [← hexact.perIp] at hcount
      have htake : ((released config s held).limiter.activeConnectionsForIp ip).toNat =
          (s.limiter.activeConnectionsForIp ip).toNat -
            if ip = held.token.clientIp then 1 else 0 :=
        Counters.toNat_count_takeOne _ _ _
      rw [htake, hcount]
      simp [@eq_comm _ ip]
    · intro site
      have hcount := heldWithLimit_released config hheld site
      rw [← hexact.perSite] at hcount
      rw [siteTotal_released]
      by_cases hsite : site = held.token.siteId
      · rw [if_pos hsite]
        rcases hcounted with hlimited | hzero
        · rw [if_pos ⟨hlimited, hsite.symm⟩] at hcount
          omega
        · rw [hsite, hzero] at hcount ⊢
          simp only [UInt32.toNat_zero] at hcount ⊢
          omega
      · rw [if_neg hsite]
        rw [if_neg fun h => hsite h.2.symm] at hcount
        omega
    · intro site limit hlimit
      refine UInt32.le_iff_toNat_le.mpr ?_
      rw [siteTotal_released]
      exact Nat.le_trans (Nat.sub_le _ _)
        (UInt32.le_iff_toNat_le.mp (hexact.siteLimit site limit hlimit))

theorem exact_step_iff {op : Op} (hexact : Exact config s) (hstep : (system config).step s op s') :
    Exact config s' ↔ CountedRelease s op := by
  cases op with
  | tryAcquire now siteId clientIp =>
    cases hstep
    exact iff_of_true (exact_acquired hexact now siteId clientIp none none) trivial
  | tryAcquireWithLimits now siteId clientIp maxPerSite maxPerIp =>
    cases hstep
    exact iff_of_true (exact_acquired hexact now siteId clientIp maxPerSite maxPerIp) trivial
  | release held =>
    change (if held ∈ s.outstanding then some (released config s held) else none) = some s' at hstep
    split at hstep
    · next hheld =>
      cases hstep
      exact exact_released_iff hexact hheld
    · cases hstep

theorem exact_init : Exact config .init where
  total := rfl
  bounded := UInt32.le_iff_toNat_le.mpr (Nat.zero_le _)
  perIp ip := congrArg UInt32.toNat (Counters.count_empty ip)
  perSite site := congrArg UInt32.toNat (Counters.count_empty site)
  siteLimit site limit h := by
    rw [show State.init.lastLimit.lookup site = none from AList.lookup_empty site] at h
    cases h

/-- **The counters are exact** in all states of a run, just if no token that was
    acquired without a site limit is released while its site counts
    connections. -/
theorem accounting_exact_iff (config : ConnectionLimitsConfig) (tr : List (State × Op)) (s : State)
    (h : (system config).Exec tr s) :
    ((∀ t ∈ tr.map Prod.fst ++ [s], Exact config t) ∧
      ∀ step ∈ tr, KeepsOnFailure config step.1 step.2) ↔
    ∀ step ∈ tr, CountedRelease step.1 step.2 := by
  have hstates := System.Exec.states_iff (Exact config) CountedRelease
    (fun s (hs : s = .init) => hs ▸ exact_init)
    (fun s op s' hexact hstep => exact_step_iff hexact hstep) h
  rw [← hstates]
  exact and_iff_left fun step _ => keepsOnFailure config step.1 step.2

/-! ### Two connections to one site -/

def exampleConfig : ConnectionLimitsConfig where
  maxConnections := 100
  maxConnectionsPerIp := 10
  connectionBurst := 5

def exampleIp : IpAddr := .v4 ⟨[198, 51, 100, 23], rfl⟩

def exampleSite : Str := "shop".toList

/-- A connection with a site limit, and one without. -/
def twoAcquisitions : List Op :=
  [.tryAcquireWithLimits 0 exampleSite exampleIp (some 10) none,
    .tryAcquire 1 exampleSite exampleIp]

def plainHeld : Held where
  token := { siteId := exampleSite, clientIp := exampleIp, acquiredAt := 1 }
  siteLimited := false

/-- The state behind some operations. -/
def stateAfter (ops : List Op) : State := (replay (next exampleConfig) .init ops).getD .init

theorem exec_stateAfter {ops : List Op}
    (h : (replay (next exampleConfig) .init ops).isSome = true) :
    ∃ tr, tr.map Prod.snd = ops ∧ (system exampleConfig).Exec tr (stateAfter ops) := by
  obtain ⟨s, hs⟩ := Option.isSome_iff_exists.mp h
  have hnil : (system exampleConfig).Exec [] .init := System.Exec.nil rfl
  obtain ⟨tr, hops, hexec⟩ := exec_of_replay hnil ops hs
  refine ⟨tr, hops, ?_⟩
  unfold stateAfter
  rw [hs]
  exact hexec

/-- Before the release both are counted. -/
theorem accounting_exact_twoAcquisitions : Exact exampleConfig (stateAfter twoAcquisitions) := by
  have hruns : (replay (next exampleConfig) .init twoAcquisitions).isSome = true := by
    decide +kernel
  obtain ⟨tr, hops, hexec⟩ := exec_stateAfter hruns
  have hcounted : ∀ step ∈ tr, CountedRelease step.1 step.2 := by
    intro step hstep
    have hop : step.2 ∈ twoAcquisitions := hops ▸ List.mem_map_of_mem hstep
    simp only [twoAcquisitions, List.mem_cons, List.not_mem_nil, or_false] at hop
    rcases hop with hop | hop <;> rw [hop] <;> trivial
  exact ((accounting_exact_iff exampleConfig tr _ hexec).mpr hcounted).1 _ (by simp)

/-- Behind the release of the second connection the site counts none. -/
theorem uncounted_release_loses_connection :
    (∃ tr, tr.map Prod.snd = twoAcquisitions ++ [.release plainHeld] ∧
      (system exampleConfig).Exec tr (stateAfter (twoAcquisitions ++ [.release plainHeld]))) ∧
    ¬ Exact exampleConfig (stateAfter (twoAcquisitions ++ [.release plainHeld])) := by
  refine ⟨exec_stateAfter (by decide +kernel), fun hexact => ?_⟩
  have hcount := hexact.perSite exampleSite
  revert hcount
  decide +kernel

end Synvoid.TrafficShaper
