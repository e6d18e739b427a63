import Synvoid.Framework.Threads
import Synvoid.Dns.Cache
import Synvoid.Dns.ResponseEncoder

/-! # Coalescing of equal queries

    Model of `QueryCoalescer` (`synvoid-dns/src/query_coalesce.rs`) with the
    code around it in `server/query.rs` and `server/startup.rs`: a query whose
    key is in flight waits for the answer of the query that is being handled,
    all others are handled and their answer is sent to those that wait.

    Each section under the lock, each send and each receive is one step of an
    interleaving of any number of queries and clean-ups. A broadcast channel
    has room for one message, and what is sent without a receiver is lost.

    * `coalesced_answer`: a query is answered by its own handler, or by the
      answer that another query of the same key sent while it was waiting;
    * `in_flight_bounded`: the map never has more entries than it may have;
    * `broadcast_reaches_waiters`: the answer reaches all that wait.
-/

namespace Synvoid.Dns

open Synvoid.Framework

/-! ## Section 1: The model -/

def shouldSkipCoalescing (qtype : UInt16) (opcode : UInt8) : Bool :=
  qtype == 252 || qtype == 251 || opcode == 4 || opcode == 5

structure QueryKey where
  name : Str
  qtype : UInt16
  qclass : UInt16
  dnssecOk : Bool
  clientIp : Option Str
  transportClass : TransportClass
  ns : CacheNamespace
  deriving DecidableEq

def QueryKey.fromParsed (lib : Externals) (parsed : ParsedDnsQuery)
    (clientIp : Option Framework.IpAddr)
    (transportClass : Option TransportClass) : QueryKey where
  name := lib.toLowercase parsed.qname
  qtype := parsed.qtype
  qclass := parsed.qclass
  dnssecOk := parsed.dnssecOk
  clientIp := clientIp.map Framework.IpAddr.display
  transportClass := transportClass.getD .udp512
  ns := .authoritative

/-- A query of a client, with what its handler returns for it. -/
structure ClientQuery where
  parsed : ParsedDnsQuery
  clientIp : Framework.IpAddr
  transportClass : TransportClass
  handled : Option Bytes
  deriving DecidableEq

def ClientQuery.key (lib : Externals) (q : ClientQuery) : QueryKey :=
  .fromParsed lib q.parsed (some q.clientIp) (some q.transportClass)

/-- `broadcast::channel(1)`: what was sent so far, and how many receive. -/
structure BroadcastChannel where
  sent : List Bytes
  receivers : Nat

/-- What is sent without a receiver is lost. -/
def BroadcastChannel.send (channel : BroadcastChannel) (response : Bytes) : BroadcastChannel :=
  if channel.receivers = 0 then channel
  else { channel with sent := channel.sent ++ [response] }

/-- `CoalescerEntry`, the sender by the number of its channel. -/
structure CoalescerEntry where
  sender : Nat
  createdAt : Nat

structure QueryCoalescer where
  inFlight : Table QueryKey CoalescerEntry
  channels : List BroadcastChannel
  maxEntries : Nat
  entryTtl : Nat

def QueryCoalescer.new (maxEntries entryTtl : Nat) : QueryCoalescer where
  inFlight := ∅
  channels := []
  maxEntries := maxEntries
  entryTtl := entryTtl

inductive CoalesceCall where
  | query (q : ClientQuery)
  | cleanupStale
  | cleanupStaleAged (maxAge : Nat)

/-- The next step of a call. -/
inductive CoalescePoint where
  /-- `get_or_wait`: the lookup under the read lock, with `subscribe`. -/
  | lookup (q : ClientQuery)
  /-- `timeout(max_wait, receiver.recv())`; the receiver stands at a message. -/
  | recv (q : ClientQuery) (channel position : Nat)
  /-- The eviction and the insertion under the write lock. -/
  | insert (q : ClientQuery)
  /-- `broadcast_response`: the entry is read. -/
  | readEntry (q : ClientQuery) (response : Bytes)
  | send (q : ClientQuery) (response : Bytes) (channel : Nat)
  /-- The removal of the key under the write lock. -/
  | remove (q : ClientQuery) (response : Bytes)
  /-- `cancel_in_flight`. -/
  | cancel (q : ClientQuery)
  /-- The query is answered. -/
  | answered (q : ClientQuery) (answer : Option Bytes)
  | cleanupStale
  | cleanupStaleAged (maxAge : Nat)
  | cleaned
  deriving DecidableEq

def coalesceStart : CoalesceCall → CoalescePoint
  | .query q =>
      if shouldSkipCoalescing q.parsed.qtype q.parsed.flags.opcode then .answered q q.handled
      else .lookup q
  | .cleanupStale => .cleanupStale
  | .cleanupStaleAged maxAge => .cleanupStaleAged maxAge

/-- What a step reads from outside: the clock, whether a receiver gives up
    (the time is over, or all senders are gone), and which of several oldest
    entries the map yields first. -/
structure CoalesceEnv where
  now : Nat
  givesUp : Bool
  oldest : QueryKey

/-- `min_by_key(created_at)` may yield this key. -/
def QueryCoalescer.isOldest (c : QueryCoalescer) (key : QueryKey) : Bool :=
  match c.inFlight.lookup key with
  | none => false
  | some entry => c.inFlight.entries.all fun other => entry.createdAt ≤ other.2.createdAt

/-- The map after `evict_oldest`, where the capacity is reached. -/
def QueryCoalescer.evicted (c : QueryCoalescer) (oldest : QueryKey) :
    Option (Table QueryKey CoalescerEntry) :=
  if c.maxEntries ≤ c.inFlight.entries.length ∧ c.inFlight.entries ≠ [] then
    if c.isOldest oldest then some (c.inFlight.erase oldest) else none
  else some c.inFlight

def QueryCoalescer.modifyChannel (c : QueryCoalescer) (channel : Nat)
    (f : BroadcastChannel → BroadcastChannel) : QueryCoalescer :=
  { c with channels := c.channels.modify channel f }

/-- After a miss the query is handled, and its answer is sent or the entry is
    cancelled. -/
def afterInsert (q : ClientQuery) : CoalescePoint :=
  match q.handled with
  | some response => .readEntry q response
  | none => .cancel q

def coalesceAdvance (lib : Externals) (env : CoalesceEnv) (c : QueryCoalescer) :
    CoalescePoint → Option (QueryCoalescer × CoalescePoint)
  | .lookup q =>
      match c.inFlight.lookup (q.key lib) with
      | none => some (c, .insert q)
      | some entry =>
          c.channels[entry.sender]?.map fun channel =>
            (c.modifyChannel entry.sender fun ch => { ch with receivers := ch.receivers + 1 },
              .recv q entry.sender channel.sent.length)
  | .recv q channelId position =>
      c.channels[channelId]?.bind fun channel =>
        let left := c.modifyChannel channelId fun ch => { ch with receivers := ch.receivers - 1 }
        match channel.sent.drop position with
        -- nothing yet
        | [] => if env.givesUp then some (left, .answered q q.handled) else none
        | [response] => some (left, .answered q (some response))
        -- lagged: the message was overwritten
        | _ :: _ :: _ => some (left, .answered q q.handled)
  | .insert q =>
      (c.evicted env.oldest).map fun inFlight =>
        ({ c with
            inFlight := inFlight.insert (q.key lib) ⟨c.channels.length, env.now⟩
            channels := c.channels ++ [⟨[], 0⟩] },
          afterInsert q)
  | .readEntry q response =>
      match c.inFlight.lookup (q.key lib) with
      | some entry => some (c, .send q response entry.sender)
      | none => some (c, .remove q response)
  | .send q response channelId =>
      some (c.modifyChannel channelId fun ch => ch.send response, .remove q response)
  | .remove q response =>
      some ({ c with inFlight := c.inFlight.erase (q.key lib) }, .answered q (some response))
  | .cancel q => some ({ c with inFlight := c.inFlight.erase (q.key lib) }, .answered q none)
  | .answered _ _ => none
  | .cleanupStale =>
      some ({ c with inFlight := c.inFlight.retain fun _ entry =>
          !((c.channels[entry.sender]?.elim 0 BroadcastChannel.receivers) == 0 ||
            env.now - entry.createdAt > c.entryTtl) }, .cleaned)
  | .cleanupStaleAged maxAge =>
      some ({ c with inFlight := c.inFlight.retain fun _ entry =>
          !(env.now - entry.createdAt > maxAge) }, .cleaned)
  | .cleaned => none

/-- The interleavings of any number of queries and clean-ups. -/
def coalescerSystem (lib : Externals) (maxEntries entryTtl : Nat) :
    System (Shared QueryCoalescer CoalescePoint) (Turn CoalesceCall CoalesceEnv) :=
  Shared.system coalesceStart (coalesceAdvance lib) (.new maxEntries entryTtl)

/-! ## Section 2: What a step can do -/

/-- All that a step can do. -/
inductive CoalesceStep (lib : Externals) (c : QueryCoalescer) :
    CoalescePoint → QueryCoalescer → CoalescePoint → Prop where
  | miss (q : ClientQuery) : CoalesceStep lib c (.lookup q) c (.insert q)
  | subscribe (q : ClientQuery) (entry : CoalescerEntry) (channel : BroadcastChannel) :
      c.inFlight.lookup (q.key lib) = some entry → c.channels[entry.sender]? = some channel →
      CoalesceStep lib c (.lookup q)
        (c.modifyChannel entry.sender fun ch => { ch with receivers := ch.receivers + 1 })
        (.recv q entry.sender channel.sent.length)
  | receive (q : ClientQuery) (channelId position : Nat) (channel : BroadcastChannel)
      (response : Bytes) :
      c.channels[channelId]? = some channel → channel.sent.drop position = [response] →
      CoalesceStep lib c (.recv q channelId position)
        (c.modifyChannel channelId fun ch => { ch with receivers := ch.receivers - 1 })
        (.answered q (some response))
  | giveUp (q : ClientQuery) (channelId position : Nat) (channel : BroadcastChannel) :
      c.channels[channelId]? = some channel →
      CoalesceStep lib c (.recv q channelId position)
        (c.modifyChannel channelId fun ch => { ch with receivers := ch.receivers - 1 })
        (.answered q q.handled)
  | insert (q : ClientQuery) (oldest : QueryKey) (now : Nat)
      (inFlight : Table QueryKey CoalescerEntry) :
      c.evicted oldest = some inFlight →
      CoalesceStep lib c (.insert q)
        { c with
          inFlight := inFlight.insert (q.key lib) ⟨c.channels.length, now⟩
          channels := c.channels ++ [⟨[], 0⟩] }
        (afterInsert q)
  | readEntry (q : ClientQuery) (response : Bytes) (entry : CoalescerEntry) :
      c.inFlight.lookup (q.key lib) = some entry →
      CoalesceStep lib c (.readEntry q response) c (.send q response entry.sender)
  | readNone (q : ClientQuery) (response : Bytes) :
      CoalesceStep lib c (.readEntry q response) c (.remove q response)
  | send (q : ClientQuery) (response : Bytes) (channelId : Nat) :
      CoalesceStep lib c (.send q response channelId)
        (c.modifyChannel channelId fun ch => ch.send response) (.remove q response)
  | remove (q : ClientQuery) (response : Bytes) :
      CoalesceStep lib c (.remove q response) { c with inFlight := c.inFlight.erase (q.key lib) }
        (.answered q (some response))
  | cancel (q : ClientQuery) :
      CoalesceStep lib c (.cancel q) { c with inFlight := c.inFlight.erase (q.key lib) }
        (.answered q none)
  | clean (p : CoalescePoint) (keep : QueryKey → CoalescerEntry → Bool) :
      p = .cleanupStale ∨ (∃ maxAge, p = .cleanupStaleAged maxAge) →
      CoalesceStep lib c p { c with inFlight := c.inFlight.retain keep } .cleaned

variable {lib : Externals}

theorem coalesceAdvance_cases {env : CoalesceEnv} {c c' : QueryCoalescer} {p p' : CoalescePoint}
    (h : coalesceAdvance lib env c p = some (c', p')) : CoalesceStep lib c p c' p' := by
  unfold coalesceAdvance at h
  cases p with
  | lookup q =>
    simp only at h
    split at h
    · obtain ⟨rfl, rfl⟩ := Prod.mk.inj (Option.some.inj h)
      exact .miss q
    · next entry hentry =>
      obtain ⟨channel, hchannel, hr⟩ := Option.map_eq_some_iff.mp h
      obtain ⟨rfl, rfl⟩ := Prod.mk.inj hr
      exact .subscribe q entry channel hentry hchannel
  | recv q channelId position =>
    obtain ⟨channel, hchannel, hr⟩ := Option.bind_eq_some_iff.mp h
    simp only at hr
    split at hr
    · split at hr
      · obtain ⟨rfl, rfl⟩ := Prod.mk.inj (Option.some.inj hr)
        exact .giveUp q channelId position channel hchannel
      · cases hr
    · next response hdrop =>
      obtain ⟨rfl, rfl⟩ := Prod.mk.inj (Option.some.inj hr)
      exact .receive q channelId position channel response hchannel hdrop
    · obtain ⟨rfl, rfl⟩ := Prod.mk.inj (Option.some.inj hr)
      exact .giveUp q channelId position channel hchannel
  | insert q =>
    obtain ⟨inFlight, hevicted, hr⟩ := Option.map_eq_some_iff.mp h
    obtain ⟨rfl, rfl⟩ := Prod.mk.inj hr
    exact .insert q env.oldest env.now inFlight hevicted
  | readEntry q response =>
    simp only at h
    split at h
    · next entry hentry =>
      obtain ⟨rfl, rfl⟩ := Prod.mk.inj (Option.some.inj h)
      exact .readEntry q response entry hentry
    · obtain ⟨rfl, rfl⟩ := Prod.mk.inj (Option.some.inj h)
      exact .readNone q response
  | send q response channelId =>
    obtain ⟨rfl, rfl⟩ := Prod.mk.inj (Option.some.inj h)
    exact .send q response channelId
  | remove q response =>
    obtain ⟨rfl, rfl⟩ := Prod.mk.inj (Option.some.inj h)
    exact .remove q response
  | cancel q =>
    obtain ⟨rfl, rfl⟩ := Prod.mk.inj (Option.some.inj h)
    exact .cancel q
  | answered q answer => cases h
  | cleanupStale =>
    obtain ⟨rfl, rfl⟩ := Prod.mk.inj (Option.some.inj h)
    exact .clean _ _ (.inl rfl)
  | cleanupStaleAged maxAge =>
    obtain ⟨rfl, rfl⟩ := Prod.mk.inj (Option.some.inj h)
    exact .clean _ _ (.inr ⟨maxAge, rfl⟩)
  | cleaned => cases h

theorem coalesceStart_cases (call : CoalesceCall) :
    (∃ q, coalesceStart call = .answered q q.handled) ∨ (∃ q, coalesceStart call = .lookup q) ∨
      coalesceStart call = .cleanupStale ∨
      ∃ maxAge, coalesceStart call = .cleanupStaleAged maxAge := by
  cases call with
  | query q =>
    by_cases hskip : shouldSkipCoalescing q.parsed.qtype q.parsed.flags.opcode = true
    · exact .inl ⟨q, if_pos hskip⟩
    · exact .inr (.inl ⟨q, if_neg hskip⟩)
  | cleanupStale => exact .inr (.inr (.inl rfl))
  | cleanupStaleAged maxAge => exact .inr (.inr (.inr ⟨maxAge, rfl⟩))

/-! ## Section 3: Who answers whom -/

variable {maxEntries entryTtl : Nat}
  {tr : List (Shared QueryCoalescer CoalescePoint × Turn CoalesceCall CoalesceEnv)}
  {s : Shared QueryCoalescer CoalescePoint}

theorem getElem?_modifyChannel (c : QueryCoalescer) (channelId other : Nat)
    (f : BroadcastChannel → BroadcastChannel) :
    (c.modifyChannel channelId f).channels[other]? =
      if other = channelId then c.channels[other]?.map f else c.channels[other]? := by
  show (c.channels.modify channelId f)[other]? = _
  rw [List.getElem?_modify]
  split
  · next h =>
    rw [if_pos h.symm]
    rfl
  · next h =>
    rw [if_neg (Ne.symm h)]
    exact Option.map_id' ..

/-- What holds of a call, if the channels were made for these keys. -/
def PointOk (lib : Externals) (owner : List QueryKey) : CoalescePoint → Prop
  | .recv q channelId _ => owner[channelId]? = some (q.key lib)
  | .readEntry q response => q.handled = some response
  | .send q response channelId =>
      q.handled = some response ∧ owner[channelId]? = some (q.key lib)
  | .remove q response => q.handled = some response
  | .cancel q => q.handled = none
  | _ => True

/-- Every channel was made for one key, and is used for it alone. -/
structure ChannelsOwned (lib : Externals) (owner : List QueryKey)
    (s : Shared QueryCoalescer CoalescePoint) : Prop where
  length : owner.length = s.state.channels.length
  points : ∀ p ∈ s.threads, PointOk lib owner p
  entries : ∀ key entry, s.state.inFlight.lookup key = some entry →
    owner[entry.sender]? = some key

theorem pointOk_afterInsert (lib : Externals) (owner : List QueryKey) (q : ClientQuery) :
    PointOk lib owner (afterInsert q) := by
  unfold afterInsert
  split
  · next response h => exact h
  · next h => exact h

theorem lookup_of_erase {t : Table QueryKey CoalescerEntry} {removed key : QueryKey}
    {entry : CoalescerEntry} (h : (t.erase removed).lookup key = some entry) :
    t.lookup key = some entry := by
  rw [Table.lookup_erase_eq] at h
  split at h
  · cases h
  · exact h

theorem lookup_of_evicted {c : QueryCoalescer} {oldest key : QueryKey} {entry : CoalescerEntry}
    {inFlight : Table QueryKey CoalescerEntry} (h : c.evicted oldest = some inFlight)
    (hentry : inFlight.lookup key = some entry) : c.inFlight.lookup key = some entry := by
  unfold QueryCoalescer.evicted at h
  split at h
  · split at h
    · obtain rfl := Option.some.inj h
      exact lookup_of_erase hentry
    · cases h
  · obtain rfl := Option.some.inj h
    exact hentry

/-- A step that makes no channel and no entry. -/
theorem ChannelsOwned.keep {owner : List QueryKey} (h : ChannelsOwned lib owner s) (i : Nat)
    {p' : CoalescePoint} {c : QueryCoalescer} (hp' : PointOk lib owner p')
    (hlength : c.channels.length = s.state.channels.length)
    (hentries : ∀ key entry, c.inFlight.lookup key = some entry →
      s.state.inFlight.lookup key = some entry) :
    ∃ more, ChannelsOwned lib (owner ++ more) { state := c, threads := s.threads.set i p' } := by
  refine ⟨[], ?_⟩
  rw [List.append_nil]
  constructor
  · exact h.length.trans hlength.symm
  · exact Shared.forall_set h.points hp'
  · intro key entry hentry
    exact h.entries key entry (hentries key entry hentry)

theorem ChannelsOwned.step {owner : List QueryKey} (h : ChannelsOwned lib owner s) {i : Nat}
    {p p' : CoalescePoint} {c : QueryCoalescer} (hp : s.threads[i]? = some p)
    (hr : CoalesceStep lib s.state p c p') :
    ∃ more, ChannelsOwned lib (owner ++ more) { state := c, threads := s.threads.set i p' } := by
  have hok := h.points p (List.mem_of_getElem? hp)
  have hmodify : ∀ (channelId : Nat) (f : BroadcastChannel → BroadcastChannel),
      (s.state.modifyChannel channelId f).channels.length = s.state.channels.length :=
    fun _ _ => List.length_modify ..
  cases hr with
  | miss q => exact h.keep i trivial rfl fun _ _ hentry => hentry
  | subscribe q entry channel hentry hchannel =>
    exact h.keep i (h.entries _ entry hentry) (hmodify _ _) fun _ _ hentry => hentry
  | receive q channelId position channel response hchannel hdrop =>
    exact h.keep i trivial (hmodify _ _) fun _ _ hentry => hentry
  | giveUp q channelId position channel hchannel =>
    exact h.keep i trivial (hmodify _ _) fun _ _ hentry => hentry
  | readEntry q response entry hentry =>
    exact h.keep i ⟨hok, h.entries _ entry hentry⟩ rfl fun _ _ hentry => hentry
  | readNone q response => exact h.keep i hok rfl fun _ _ hentry => hentry
  | send q response channelId => exact h.keep i hok.1 (hmodify _ _) fun _ _ hentry => hentry
  | remove q response => exact h.keep i trivial rfl fun _ _ hentry => lookup_of_erase hentry
  | cancel q => exact h.keep i trivial rfl fun _ _ hentry => lookup_of_erase hentry
  | clean p keep hp =>
    refine h.keep i trivial rfl fun key entry hentry => ?_
    rw [Table.lookup_retain] at hentry
    exact (Option.filter_eq_some_iff.mp hentry).1
  | insert q oldest now inFlight hevicted =>
    have hold : ∀ {channelId : Nat} {key : QueryKey}, owner[channelId]? = some key →
        (owner ++ [q.key lib])[channelId]? = some key := by
      intro channelId key heq
      rw [List.getElem?_append_left (List.getElem?_eq_some_iff.mp heq).1, heq]
    refine ⟨[q.key lib], by simp [h.length], Shared.forall_set ?_ (pointOk_afterInsert _ _ q), ?_⟩
    · intro p hp
      have hthis := h.points p hp
      cases p with
      | recv q channelId position => exact hold hthis
      | send q response channelId => exact ⟨hthis.1, hold hthis.2⟩
      | _ => exact hthis
    · intro key entry hentry
      rw [Table.lookup_insert_eq] at hentry
      split at hentry
      · next hkey =>
        obtain rfl := Option.some.inj hentry
        show (owner ++ [q.key lib])[s.state.channels.length]? = some key
        rw [← h.length, List.getElem?_concat_length, hkey]
      · exact hold (h.entries key entry (lookup_of_evicted hevicted hentry))

theorem channelsOwned (h : (coalescerSystem lib maxEntries entryTtl).Exec tr s) :
    ∃ owner, ChannelsOwned lib owner s := by
  refine Shared.invariant_of_access (fun s => ∃ owner, ChannelsOwned lib owner s) ?_ ?_ ?_ h
  · refine ⟨[], rfl, ?_, ?_⟩
    · intro p hp
      cases hp
    · intro key entry hentry
      simp [QueryCoalescer.new] at hentry
  · intro s arg ⟨owner, hlength, hpoints, hentries⟩
    refine ⟨owner, hlength, ?_, hentries⟩
    intro p hp
    rcases List.mem_append.mp hp with hp | hp
    · exact hpoints p hp
    · rw [List.mem_singleton.mp hp]
      rcases coalesceStart_cases arg with ⟨q, h⟩ | ⟨q, h⟩ | h | ⟨maxAge, h⟩ <;>
      · rw [h]
        trivial
  · intro _ s i p env c p' _ ⟨owner, howned⟩ hp hr
    obtain ⟨more, hmore⟩ := howned.step hp (coalesceAdvance_cases hr)
    exact ⟨owner ++ more, hmore⟩

/-- While call `i` waited for its query, another query of the same key sent its
    answer to the channel that call `i` was waiting at. -/
def SentTo (lib : Externals)
    (tr : List (Shared QueryCoalescer CoalescePoint × Turn CoalesceCall CoalesceEnv)) (i : Nat)
    (q : ClientQuery) (response : Bytes) : Prop :=
  ∃ before t j env after sender channelId position,
    tr = before ++ (t, .access j env) :: after ∧
    t.threads[j]? = some (.send sender response channelId) ∧ sender.key lib = q.key lib ∧
    sender.handled = some response ∧ t.threads[i]? = some (.recv q channelId position)

theorem SentTo.snoc {i : Nat} {q : ClientQuery} {response : Bytes} (h : SentTo lib tr i q response)
    (step : Shared QueryCoalescer CoalescePoint × Turn CoalesceCall CoalesceEnv) :
    SentTo lib (tr ++ [step]) i q response := by
  obtain ⟨before, t, j, env, after, sender, channelId, position, htr, hrest⟩ := h
  refine ⟨before, t, j, env, after ++ [step], sender, channelId, position, ?_, hrest⟩
  rw [htr, List.append_assoc, List.cons_append]

/-- The messages a waiting call has before it, and the answers of those that
    are done, were sent to them. -/
structure Delivered (lib : Externals)
    (tr : List (Shared QueryCoalescer CoalescePoint × Turn CoalesceCall CoalesceEnv))
    (s : Shared QueryCoalescer CoalescePoint) : Prop where
  waiting : ∀ i q channelId position, s.threads[i]? = some (.recv q channelId position) →
    ∀ channel, s.state.channels[channelId]? = some channel →
    ∀ response ∈ channel.sent.drop position, SentTo lib tr i q response
  answered : ∀ i q answer, s.threads[i]? = some (.answered q answer) →
    answer = q.handled ∨ ∃ response, answer = some response ∧ SentTo lib tr i q response

/-- The channels after a step have the messages they had before. -/
def SameMessages (c c' : QueryCoalescer) : Prop :=
  ∀ (channelId : Nat) (channel' : BroadcastChannel), c'.channels[channelId]? = some channel' →
    channel'.sent = [] ∨
      ∃ channel, c.channels[channelId]? = some channel ∧ channel'.sent = channel.sent

theorem SameMessages.refl (c : QueryCoalescer) : SameMessages c c :=
  fun _ channel' hchannel' => .inr ⟨channel', hchannel', rfl⟩

/-- A step that sends nothing. -/
theorem Delivered.keep (h : Delivered lib tr s) {i : Nat} {p' : CoalescePoint} {c : QueryCoalescer}
    (step : Shared QueryCoalescer CoalescePoint × Turn CoalesceCall CoalesceEnv)
    (hsent : SameMessages s.state c)
    (hwait : ∀ (q : ClientQuery) (channelId position : Nat), p' = .recv q channelId position →
      ∀ channel', c.channels[channelId]? = some channel' → channel'.sent.drop position = [])
    (hanswer : ∀ q answer, p' = .answered q answer →
      answer = q.handled ∨ ∃ response, answer = some response ∧ SentTo lib tr i q response) :
    Delivered lib (tr ++ [step]) { state := c, threads := s.threads.set i p' } := by
  constructor
  · intro j q channelId position hj channel' hchannel' response hresponse
    rcases Shared.getElem?_set_cases hj with ⟨rfl, hp'⟩ | ⟨-, hj⟩
    · rw [hwait q channelId position hp'.symm channel' hchannel'] at hresponse
      cases hresponse
    · rcases hsent channelId channel' hchannel' with hnone | ⟨channel, hchannel, hsame⟩
      · rw [hnone, List.drop_nil] at hresponse
        cases hresponse
      · rw [hsame] at hresponse
        exact (h.waiting j q channelId position hj channel hchannel response hresponse).snoc step
  · intro j q answer hj
    rcases Shared.getElem?_set_cases hj with ⟨rfl, hp'⟩ | ⟨-, hj⟩
    · rcases hanswer q answer hp'.symm with hown | ⟨response, heq, hsentTo⟩
      · exact .inl hown
      · exact .inr ⟨response, heq, hsentTo.snoc step⟩
    · rcases h.answered j q answer hj with hown | ⟨response, heq, hsentTo⟩
      · exact .inl hown
      · exact .inr ⟨response, heq, hsentTo.snoc step⟩

/-- A step that changes the number of receivers. -/
theorem SameMessages.modify (c : QueryCoalescer) (channelId : Nat)
    (f : BroadcastChannel → BroadcastChannel) (hf : ∀ channel, (f channel).sent = channel.sent) :
    SameMessages c (c.modifyChannel channelId f) := by
  intro other channel' hchannel'
  rw [getElem?_modifyChannel] at hchannel'
  split at hchannel'
  · obtain ⟨channel, hchannel, rfl⟩ := Option.map_eq_some_iff.mp hchannel'
    exact .inr ⟨channel, hchannel, hf channel⟩
  · exact .inr ⟨channel', hchannel', rfl⟩

theorem Delivered.send {owner : List QueryKey} (h : Delivered lib tr s)
    (howned : ChannelsOwned lib owner s) {i : Nat} {env : CoalesceEnv} {q : ClientQuery}
    {response : Bytes} {channelId : Nat} (hi : s.threads[i]? = some (.send q response channelId)) :
    Delivered lib (tr ++ [(s, .access i env)])
      { state := s.state.modifyChannel channelId fun ch => ch.send response
        threads := s.threads.set i (.remove q response) } := by
  obtain ⟨hhandled, howner⟩ := howned.points _ (List.mem_of_getElem? hi)
  constructor
  · intro j q' other position hj channel' hchannel' response' hresponse'
    rcases Shared.getElem?_set_cases hj with ⟨rfl, hp'⟩ | ⟨-, hold⟩
    · cases hp'
    · rw [getElem?_modifyChannel] at hchannel'
      split at hchannel'
      · next hother =>
        subst hother
        obtain ⟨channel, hchannel, rfl⟩ := Option.map_eq_some_iff.mp hchannel'
        -- the message is an old one, or the one that is sent now
        have hsplit : response' ∈ channel.sent.drop position ∨ response' = response := by
          unfold BroadcastChannel.send at hresponse'
          split at hresponse'
          · exact .inl hresponse'
          · rw [List.drop_append] at hresponse'
            rcases List.mem_append.mp hresponse' with hbefore | hnew
            · exact .inl hbefore
            · exact .inr (List.mem_singleton.mp (List.mem_of_mem_drop hnew))
        rcases hsplit with hbefore | rfl
        · exact (h.waiting j q' other position hold channel hchannel response' hbefore).snoc _
        · have howner' : owner[other]? = some (q'.key lib) :=
            howned.points _ (List.mem_of_getElem? hold)
          have hkey : q.key lib = q'.key lib := Option.some.inj (howner.symm.trans howner')
          exact ⟨tr, s, i, env, [], q, other, position, rfl, hi, hkey, hhandled, hold⟩
      · exact (h.waiting j q' other position hold channel' hchannel' response' hresponse').snoc _
  · intro j q' answer hj
    rcases Shared.getElem?_set_cases hj with ⟨rfl, hp'⟩ | ⟨-, hold⟩
    · cases hp'
    · rcases h.answered j q' answer hold with hown | ⟨response, heq, hsentTo⟩
      · exact .inl hown
      · exact .inr ⟨response, heq, hsentTo.snoc _⟩

theorem Delivered.step {owner : List QueryKey} (h : Delivered lib tr s)
    (howned : ChannelsOwned lib owner s) {i : Nat} {env : CoalesceEnv} {p p' : CoalescePoint}
    {c : QueryCoalescer} (hp : s.threads[i]? = some p) (hr : CoalesceStep lib s.state p c p') :
    Delivered lib (tr ++ [(s, .access i env)]) { state := c, threads := s.threads.set i p' } := by
  have hok := howned.points p (List.mem_of_getElem? hp)
  have hsame := SameMessages.refl s.state
  cases hr with
  | miss q => exact h.keep _ hsame (fun _ _ _ heq => nomatch heq) fun _ _ heq => nomatch heq
  | subscribe q entry channel hentry hchannel =>
    refine h.keep _ (SameMessages.modify s.state _ _ fun _ => rfl) ?_ fun _ _ heq => nomatch heq
    -- the receiver starts behind the last message
    intro q' channelId position heq channel' hchannel'
    cases heq
    rw [getElem?_modifyChannel, if_pos rfl, hchannel] at hchannel'
    obtain rfl := Option.some.inj hchannel'
    exact List.drop_length ..
  | receive q channelId position channel response hchannel hdrop =>
    refine h.keep _ (SameMessages.modify s.state _ _ fun _ => rfl) (fun _ _ _ heq => nomatch heq) ?_
    intro q' answer heq
    cases heq
    refine .inr ⟨response, rfl, h.waiting i q channelId position hp channel hchannel response ?_⟩
    rw [hdrop]
    exact List.mem_singleton_self response
  | giveUp q channelId position channel hchannel =>
    refine h.keep _ (SameMessages.modify s.state _ _ fun _ => rfl) (fun _ _ _ heq => nomatch heq) ?_
    intro q' answer heq
    cases heq
    exact .inl rfl
  | insert q oldest now inFlight hevicted =>
    refine h.keep _ ?_ ?_ ?_
    · intro channelId channel' hchannel'
      simp only [List.getElem?_append] at hchannel'
      split at hchannel'
      · exact hsame channelId channel' hchannel'
      · have hnew := List.mem_singleton.mp (List.mem_of_getElem? hchannel')
        exact .inl (by rw [hnew])
    · intro q' channelId position heq
      unfold afterInsert at heq
      split at heq <;> cases heq
    · intro q' answer heq
      unfold afterInsert at heq
      split at heq <;> cases heq
  | readEntry q response entry hentry =>
    exact h.keep _ hsame (fun _ _ _ heq => nomatch heq) fun _ _ heq => nomatch heq
  | readNone q response =>
    exact h.keep _ hsame (fun _ _ _ heq => nomatch heq) fun _ _ heq => nomatch heq
  | send q response channelId => exact h.send howned hp
  | remove q response =>
    refine h.keep _ hsame (fun _ _ _ heq => nomatch heq) ?_
    intro q' answer heq
    cases heq
    exact .inl hok.symm
  | cancel q =>
    refine h.keep _ hsame (fun _ _ _ heq => nomatch heq) ?_
    intro q' answer heq
    cases heq
    exact .inl hok.symm
  | clean p keep hp =>
    exact h.keep _ hsame (fun _ _ _ heq => nomatch heq) fun _ _ heq => nomatch heq

theorem delivered (h : (coalescerSystem lib maxEntries entryTtl).Exec tr s) :
    Delivered lib tr s := by
  refine (System.Exec.history (fun tr s => (coalescerSystem lib maxEntries entryTtl).Exec tr s ∧
    Delivered lib tr s) ?_ ?_ h).2
  · intro s hs
    refine ⟨.nil hs, ?_⟩
    rw [show s = _ from hs]
    constructor
    · intro i q channelId position hi
      cases hi
    · intro i q answer hi
      cases hi
  · intro tr s turn s' ⟨hexec, ih⟩ hstep
    refine ⟨hexec.snoc hstep, ?_⟩
    cases turn with
    | access i env =>
      obtain ⟨p, hp, hadvance⟩ := Option.bind_eq_some_iff.mp hstep
      obtain ⟨⟨c, p'⟩, hr, rfl⟩ := Option.map_eq_some_iff.mp hadvance
      obtain ⟨owner, howned⟩ := channelsOwned hexec
      exact ih.step howned hp (coalesceAdvance_cases hr)
    | call arg =>
      obtain rfl : _ = s' := Option.some.inj hstep
      -- the new call waits for nothing yet
      have hnew : ∀ {i : Nat} {p : CoalescePoint},
          (s.threads ++ [coalesceStart arg])[i]? = some p →
          s.threads[i]? = some p ∨ p = coalesceStart arg := by
        intro i p hi
        rw [List.getElem?_append] at hi
        split at hi
        · exact .inl hi
        · exact .inr (List.mem_singleton.mp (List.mem_of_getElem? hi))
      constructor
      · intro i q channelId position hi channel hchannel response hresponse
        rcases hnew hi with hi | heq
        · exact (ih.waiting i q channelId position hi channel hchannel response hresponse).snoc _
        · rcases coalesceStart_cases arg with ⟨q', h'⟩ | ⟨q', h'⟩ | h' | ⟨maxAge, h'⟩ <;>
          · rw [h'] at heq
            cases heq
      · intro i q answer hi
        rcases hnew hi with hi | heq
        · rcases ih.answered i q answer hi with hown | ⟨response, hresponse, hsentTo⟩
          · exact .inl hown
          · exact .inr ⟨response, hresponse, hsentTo.snoc _⟩
        · rcases coalesceStart_cases arg with ⟨q', h'⟩ | ⟨q', h'⟩ | h' | ⟨maxAge, h'⟩
          · rw [h'] at heq
            cases heq
            exact .inl rfl
          · rw [h'] at heq
            cases heq
          · rw [h'] at heq
            cases heq
          · rw [h'] at heq
            cases heq

/-- Equal keys are those of the same question, with the same name up to case,
    of the same client over the same transport. -/
theorem key_eq_iff (q q' : ClientQuery) : q.key lib = q'.key lib ↔
    lib.toLowercase q.parsed.qname = lib.toLowercase q'.parsed.qname ∧
      q.parsed.qtype = q'.parsed.qtype ∧ q.parsed.qclass = q'.parsed.qclass ∧
      q.parsed.dnssecOk = q'.parsed.dnssecOk ∧ q.clientIp = q'.clientIp ∧
      q.transportClass = q'.transportClass := by
  have hip : q.clientIp.display = q'.clientIp.display ↔ q.clientIp = q'.clientIp := by
    constructor
    · intro heq
      -- the text of an address can be read back
      have hparse := parse_display q.clientIp
      rw [heq, parse_display] at hparse
      exact (Option.some.inj hparse).symm
    · intro heq
      rw [heq]
  simp [ClientQuery.key, QueryKey.fromParsed, hip]

/-- **Answers do not cross**: in every interleaving, a query is answered with
    what its own handler returns, or with the answer that another query sent
    while it was waiting; that query had the same type, class and DNSSEC flag,
    the same name up to case, and came from the same client over the same
    transport. -/
theorem coalesced_answer (h : (coalescerSystem lib maxEntries entryTtl).Exec tr s) {i : Nat}
    {q : ClientQuery} {answer : Option Bytes} (hi : s.threads[i]? = some (.answered q answer)) :
    answer = q.handled ∨
      ∃ before t j env after sender channelId position,
        tr = before ++ (t, .access j env) :: after ∧
        t.threads[i]? = some (.recv q channelId position) ∧
        (∃ response, t.threads[j]? = some (.send sender response channelId) ∧
          sender.handled = some response ∧ answer = some response) ∧
        lib.toLowercase sender.parsed.qname = lib.toLowercase q.parsed.qname ∧
        sender.parsed.qtype = q.parsed.qtype ∧ sender.parsed.qclass = q.parsed.qclass ∧
        sender.parsed.dnssecOk = q.parsed.dnssecOk ∧ sender.clientIp = q.clientIp ∧
        sender.transportClass = q.transportClass := by
  rcases (delivered h).answered i q answer hi with hown | ⟨response, rfl, hsentTo⟩
  · exact .inl hown
  · obtain ⟨before, t, j, env, after, sender, channelId, position, htr, hj, hkey,
      hhandled, hwaits⟩ :=
      hsentTo
    exact .inr ⟨before, t, j, env, after, sender, channelId, position, htr, hwaits,
      ⟨response, hj, hhandled, rfl⟩, (key_eq_iff sender q).mp hkey⟩

/-! ## Section 4: The size of the map -/

theorem length_evicted {c : QueryCoalescer} {oldest : QueryKey}
    {inFlight : Table QueryKey CoalescerEntry} (h : c.evicted oldest = some inFlight)
    (hbound : c.inFlight.entries.length ≤ max c.maxEntries 1) :
    inFlight.entries.length + 1 ≤ max c.maxEntries 1 := by
  unfold QueryCoalescer.evicted at h
  split at h
  · split at h
    · next holdest =>
      obtain rfl := Option.some.inj h
      -- the oldest entry is one of the map, so one is gone
      have hsome : (c.inFlight.lookup oldest).isSome = true := by
        unfold QueryCoalescer.isOldest at holdest
        split at holdest
        · cases holdest
        · next hentry => rw [hentry]; rfl
      rw [Table.length_erase hsome]
      exact hbound
    · cases h
  · next hroom =>
    obtain rfl := Option.some.inj h
    by_cases hempty : c.inFlight.entries = []
    · rw [hempty]
      exact Nat.le_max_right _ _
    · have : ¬ c.maxEntries ≤ c.inFlight.entries.length := fun hle => hroom ⟨hle, hempty⟩
      omega

theorem CoalesceStep.maxEntries_eq {c c' : QueryCoalescer} {p p' : CoalescePoint}
    (h : CoalesceStep lib c p c' p') : c'.maxEntries = c.maxEntries := by
  cases h <;> rfl

/-- **Bounded map**: concurrent misses never grow the map past `max_entries`
    (past one entry, if this is zero). -/
theorem in_flight_bounded (h : (coalescerSystem lib maxEntries entryTtl).Exec tr s) :
    s.state.inFlight.entries.length ≤ max maxEntries 1 := by
  refine (Shared.invariant_of_access (fun s => s.state.maxEntries = maxEntries ∧
    s.state.inFlight.entries.length ≤ max maxEntries 1) ?_ ?_ ?_ h).2
  · exact ⟨rfl, Nat.zero_le _⟩
  · intro s arg ih
    exact ih
  · intro _ s i p env c p' _ ⟨hmax, ih⟩ hp hr
    have hstep := coalesceAdvance_cases hr
    refine ⟨hstep.maxEntries_eq.trans hmax, ?_⟩
    have herase : ∀ key, (s.state.inFlight.erase key).entries.length ≤ max maxEntries 1 := by
      intro key
      refine Nat.le_trans ?_ ih
      cases hentry : s.state.inFlight.lookup key with
      | none =>
        have hkey : key ∉ s.state.inFlight.entries.keys := AList.lookup_eq_none.mp hentry
        show (s.state.inFlight.entries.kerase key).length ≤ _
        rw [List.kerase_of_notMem_keys hkey]
      | some entry =>
        have := Table.length_erase (by rw [hentry]; rfl :
          (s.state.inFlight.lookup key).isSome = true)
        omega
    cases hstep with
    | insert q oldest now inFlight hevicted =>
      have hroom := length_evicted hevicted (by rw [hmax]; exact ih)
      rw [hmax] at hroom
      show (inFlight.insert (q.key lib) _).entries.length ≤ _
      rw [Table.length_insert]
      split <;> omega
    | remove q response => exact herase _
    | cancel q => exact herase _
    | clean p keep hp =>
      refine Nat.le_trans ?_ ih
      exact List.length_filterMap_le _ _
    | _ => exact ih

/-! ## Section 5: Those that wait -/

/-- The call waits at this channel. -/
def waitsAt (channelId : Nat) : CoalescePoint → Nat
  | .recv _ other _ => if other = channelId then 1 else 0
  | _ => 0

def QueryCoalescer.receivers (c : QueryCoalescer) (channelId : Nat) : Nat :=
  c.channels[channelId]?.elim 0 BroadcastChannel.receivers

theorem receivers_modifyChannel {c : QueryCoalescer} {channelId : Nat} {channel : BroadcastChannel}
    (h : c.channels[channelId]? = some channel) (f : BroadcastChannel → BroadcastChannel)
    (other : Nat) : (c.modifyChannel channelId f).receivers other =
      if other = channelId then (f channel).receivers else c.receivers other := by
  unfold QueryCoalescer.receivers
  rw [getElem?_modifyChannel]
  split
  · next hother =>
    rw [hother, h]
    rfl
  · rfl

theorem receivers_eq {c : QueryCoalescer} {channelId : Nat} {channel : BroadcastChannel}
    (h : c.channels[channelId]? = some channel) : c.receivers channelId = channel.receivers := by
  unfold QueryCoalescer.receivers
  rw [h]
  rfl

/-- A receiver that leaves its channel. -/
theorem receivers_leave {c : QueryCoalescer} {channelId : Nat} {channel : BroadcastChannel}
    (h : c.channels[channelId]? = some channel) (other : Nat)
    (hle : (if channelId = other then 1 else 0) ≤ c.receivers other) :
    (c.modifyChannel channelId
      fun ch => { ch with receivers := ch.receivers - 1 }).receivers other +
      (if channelId = other then 1 else 0) = c.receivers other := by
  rw [receivers_modifyChannel h]
  by_cases hother : other = channelId
  · subst hother
    rw [if_pos rfl, receivers_eq h] at *
    simp only [if_true] at *
    omega
  · rw [if_neg hother, if_neg (Ne.symm hother)]
    rfl

/-- A channel counts the calls that wait at it. -/
theorem receivers_eq_total (h : (coalescerSystem lib maxEntries entryTtl).Exec tr s)
    (channelId : Nat) : s.state.receivers channelId = s.total (waitsAt channelId) := by
  refine Shared.tally (waitsAt channelId) (fun c => c.receivers channelId) rfl ?_ ?_ h
  · intro arg
    rcases coalesceStart_cases arg with ⟨q, h'⟩ | ⟨q, h'⟩ | h' | ⟨maxAge, h'⟩ <;>
    · rw [h']
      rfl
  · intro env c p c' p' hle hr
    cases coalesceAdvance_cases hr with
    | subscribe q entry channel hentry hchannel =>
      show (c.modifyChannel entry.sender _).receivers channelId + 0 =
        c.receivers channelId + (if entry.sender = channelId then 1 else 0)
      rw [receivers_modifyChannel hchannel]
      by_cases hid : channelId = entry.sender
      · subst hid
        rw [if_pos rfl, if_pos rfl, receivers_eq hchannel]
      · rw [if_neg hid, if_neg (Ne.symm hid)]
    | receive q other position channel response hchannel hdrop =>
      exact receivers_leave hchannel channelId hle
    | giveUp q other position channel hchannel => exact receivers_leave hchannel channelId hle
    | insert q oldest now inFlight hevicted =>
      have hpoint : waitsAt channelId (afterInsert q) = 0 := by
        unfold afterInsert
        split <;> rfl
      rw [hpoint]
      show (c.channels ++ [_])[channelId]?.elim 0 _ + 0 = c.channels[channelId]?.elim 0 _ + 0
      rw [List.getElem?_append]
      split
      · rfl
      · next hlt =>
        -- a new channel has no receivers
        rw [List.getElem?_eq_none (Nat.le_of_not_lt hlt)]
        cases channelId - c.channels.length <;> rfl
    | send q response other =>
      show (c.modifyChannel other _).receivers channelId + 0 = c.receivers channelId + 0
      cases hchannel : c.channels[other]? with
      | some channel =>
        rw [receivers_modifyChannel hchannel]
        split
        · next hid =>
          rw [hid, receivers_eq hchannel]
          unfold BroadcastChannel.send
          split <;> rfl
        · rfl
      | none =>
        unfold QueryCoalescer.receivers
        rw [getElem?_modifyChannel]
        split
        · next hid =>
          rw [hid, hchannel]
          rfl
        · rfl
    | clean p keep hp =>
      rcases hp with rfl | ⟨maxAge, rfl⟩ <;> rfl
    | _ => rfl

/-- **Nobody is forgotten**: if the handler of a query is done and its key is
    in the map, its next two steps send the answer to all calls that wait at
    the channel of the entry with no other message before them; whatever the
    clock says, each of them returns this answer at its next step. -/
theorem broadcast_reaches_waiters
    (h : (coalescerSystem lib maxEntries entryTtl).Exec tr s) {j : Nat}
    {sender : ClientQuery} {response : Bytes} {entry : CoalescerEntry} {channel : BroadcastChannel}
    (hj : s.threads[j]? = some (.readEntry sender response))
    (hentry : s.state.inFlight.lookup (sender.key lib) = some entry)
    (hchannel : s.state.channels[entry.sender]? = some channel) (env env' : CoalesceEnv) :
    ∃ s', replay (Shared.next coalesceStart (coalesceAdvance lib)) s
        [.access j env, .access j env'] = some s' ∧
      ∀ i q, s.threads[i]? = some (.recv q entry.sender channel.sent.length) →
        ∀ env'', ∃ s'',
          Shared.next coalesceStart (coalesceAdvance lib) s' (.access i env'') = some s'' ∧
          s''.threads[i]? = some (.answered q (some response)) := by
  obtain ⟨hjlt, -⟩ := List.getElem?_eq_some_iff.mp hj
  have hread : coalesceAdvance lib env s.state (.readEntry sender response) =
      some (s.state, .send sender response entry.sender) := by
    simp only [coalesceAdvance, hentry]
  have hpoint : (s.threads.set j (.send sender response entry.sender))[j]? =
      some (.send sender response entry.sender) := List.getElem?_set_self hjlt
  have hreplay : replay (Shared.next coalesceStart (coalesceAdvance lib)) s
      [.access j env, .access j env'] = some
        { state := s.state.modifyChannel entry.sender fun ch => ch.send response
          threads := s.threads.set j (.remove sender response) } := by
    unfold replay replay replay
    rw [Shared.next_access hj hread, Option.bind_some, Shared.next_access hpoint rfl,
      Option.bind_some, List.set_set]
  refine ⟨_, hreplay, ?_⟩
  intro i q hi env''
  have hij : i ≠ j := by
    intro heq
    rw [heq, hj] at hi
    cases hi
  have hwaits : (s.threads.set j (.remove sender response))[i]? =
      some (.recv q entry.sender channel.sent.length) := by
    rw [List.getElem?_set_ne (Ne.symm hij), hi]
  -- the call itself is a receiver, so the message is kept
  have hreceivers : channel.receivers ≠ 0 := by
    have htotal := receivers_eq_total h entry.sender
    have hself := Shared.le_total (waitsAt entry.sender) (List.mem_of_getElem? hi)
    rw [receivers_eq hchannel] at htotal
    simp only [waitsAt, if_true] at hself
    omega
  have hsent :
      (s.state.modifyChannel entry.sender fun ch => ch.send response).channels[entry.sender]? =
      some { channel with sent := channel.sent ++ [response] } := by
    rw [getElem?_modifyChannel, if_pos rfl, hchannel]
    show some (channel.send response) = _
    unfold BroadcastChannel.send
    rw [if_neg hreceivers]
  have hreceive : ∃ left, coalesceAdvance lib env''
      (s.state.modifyChannel entry.sender fun ch => ch.send response)
      (.recv q entry.sender channel.sent.length) = some (left, .answered q (some response)) := by
    simp only [coalesceAdvance, hsent, Option.bind_some, List.drop_left]
    exact ⟨_, rfl⟩
  obtain ⟨left, hreceive⟩ := hreceive
  refine ⟨_, Shared.next_access hwaits hreceive, ?_⟩
  exact List.getElem?_set_self (List.getElem?_eq_some_iff.mp hwaits).1

/-! ### A run -/

/-- A query with this number as its id, of one client. -/
def clientQuery (id : UInt16) : ClientQuery where
  parsed :=
    { id := id
      flags := .fromU16 0x0100
      qdcount := 1
      qname := ['a']
      qnameEnd := 15
      qtype := 1
      qclass := 1
      questionEnd := 19
      hasEdns := false
      dnssecOk := false
      raw := [] }
  clientIp := .v4 ⟨[192, 0, 2, 5], rfl⟩
  transportClass := .udp512
  handled := some (u16ToBe id)

/-- The second query comes while the first one is being handled. -/
def coalescingRun : List (Turn CoalesceCall CoalesceEnv) :=
  let env : CoalesceEnv := ⟨0, false, (clientQuery 7).key asciiExternals⟩
  [.call (.query (clientQuery 7)), .access 0 env, .access 0 env,
    .call (.query (clientQuery 8)), .access 1 env]

def coalescerRun (turns : List (Turn CoalesceCall CoalesceEnv)) :
    Option (Shared QueryCoalescer CoalescePoint) :=
  replay (Shared.next coalesceStart (coalesceAdvance asciiExternals)) ⟨.new 1 30, []⟩ turns

theorem exec_coalescerRun {turns : List (Turn CoalesceCall CoalesceEnv)}
    (h : coalescerRun turns = some s) :
    (coalescerSystem asciiExternals 1 30).Exec
      (traceOf (Shared.next coalesceStart (coalesceAdvance asciiExternals))
        ⟨.new 1 30, []⟩ turns) s :=
  exec_traceOf (.nil rfl) turns h

/-- The first query is answered and the second one receives its answer. -/
def deliveringRun : List (Turn CoalesceCall CoalesceEnv) :=
  let env : CoalesceEnv := ⟨1, true, (clientQuery 7).key asciiExternals⟩
  coalescingRun ++ [.access 0 env, .access 0 env, .access 1 env]

theorem coalesced_answer_run : ∃ s, ∃ sender : ClientQuery, coalescerRun deliveringRun = some s ∧
    s.threads[1]? = some (.answered (clientQuery 8) (some (u16ToBe 7))) ∧
    sender.handled = some (u16ToBe 7) ∧ sender.clientIp = (clientQuery 8).clientIp := by
  have hrun : ((coalescerRun deliveringRun).bind fun s => s.threads[1]?) =
      some (.answered (clientQuery 8) (some (u16ToBe 7))) := by decide
  obtain ⟨s, hs, hanswered⟩ := Option.bind_eq_some_iff.mp hrun
  rcases coalesced_answer (exec_coalescerRun hs) hanswered with hown | hother
  · exact absurd hown (by decide)
  · obtain ⟨-, -, -, -, -, sender, -, -, -, -, ⟨response, -, hhandled, heq⟩, -, -, -, -,
      hclient, -⟩ :=
      hother
    obtain rfl := Option.some.inj heq
    exact ⟨s, sender, hs, hanswered, hhandled, hclient⟩

theorem broadcast_reaches_waiters_run :
    ∃ s, ∃ s' : Shared QueryCoalescer CoalescePoint, coalescerRun coalescingRun = some s ∧
    s.threads[1]? = some (.recv (clientQuery 8) 0 0) ∧
    s'.threads[1]? = some (.answered (clientQuery 8) (some (u16ToBe 7))) := by
  have hrun : ((coalescerRun coalescingRun).map fun s => (s.threads,
      (s.state.inFlight.lookup ((clientQuery 7).key asciiExternals)).map CoalescerEntry.sender,
      s.state.channels[0]?.map BroadcastChannel.sent)) =
      some ([.readEntry (clientQuery 7) (u16ToBe 7), .recv (clientQuery 8) 0 0], some 0,
        some []) := by
    decide
  obtain ⟨s, hs, heq⟩ := Option.map_eq_some_iff.mp hrun
  obtain ⟨hthreads, hrest⟩ := Prod.mk.inj heq
  obtain ⟨hentry, hchannel⟩ := Prod.mk.inj hrest
  obtain ⟨entry, hentry, hsender⟩ := Option.map_eq_some_iff.mp hentry
  obtain ⟨channel, hchannel, hsent⟩ := Option.map_eq_some_iff.mp hchannel
  rw [← hsender] at hchannel
  have hfirst : s.threads[0]? = some (.readEntry (clientQuery 7) (u16ToBe 7)) := by
    rw [hthreads]
    rfl
  obtain ⟨_, _, hall⟩ := broadcast_reaches_waiters (exec_coalescerRun hs) hfirst hentry hchannel
    ⟨1, false, (clientQuery 7).key asciiExternals⟩
    ⟨1, false, (clientQuery 7).key asciiExternals⟩
  obtain ⟨s'', -, hanswered⟩ := hall 1 (clientQuery 8) (by rw [hthreads, hsender, hsent]; rfl)
    ⟨600, true, (clientQuery 7).key asciiExternals⟩
  exact ⟨s, s'', hs, by rw [hthreads]; rfl, hanswered⟩

theorem in_flight_bounded_run : ∃ s, coalescerRun coalescingRun = some s ∧
    s.state.inFlight.entries.length ≤ max 1 1 := by
  have hrun : (coalescerRun coalescingRun).isSome = true := by decide
  obtain ⟨s, hs⟩ := Option.isSome_iff_exists.mp hrun
  exact ⟨s, hs, in_flight_bounded (exec_coalescerRun hs)⟩

end Synvoid.Dns
