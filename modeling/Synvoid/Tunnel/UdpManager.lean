import Synvoid.Framework.RustStr
import Synvoid.Framework.Table
import Synvoid.Framework.Transition

/-! # Requests over a UDP tunnel

    Model of `ActiveUdpTunnel` (`synvoid-tunnel/src/udp_manager.rs`). Messages are
    numbered by a counter of the tunnel. A tracked request is stored under a
    number that is drawn for it, and is then handed to `send`, which draws
    another one for the message. So the number of the message is never the one
    of the stored request, and a response that echoes it finds nothing, or what
    is not there for it. Runs without tracked requests are in order
    (`routed_iff`).

    Whether the connection takes a message is up to the network. The encoding of
    datagrams and the addresses of clients are parameters.
-/

namespace Synvoid.Tunnel

open Synvoid.Framework

variable {Addr : Type}

/-! ## Section 1: The tunnel -/

structure DatagramMessage where
  identifier : Str
  sequence : UInt64
  data : Bytes
  port : UInt16
  sourceAddr : Str
  returnAddr : Option Str := none
  hopCount : UInt8 := 0

/-- What goes to the peer: a datagram, or `TunnelMessage::DataChunk` on a stream of its own. -/
inductive WireMessage where
  | datagram (msg : DatagramMessage)
  | dataChunk (identifier : Str) (sequence : UInt64) (data : Bytes) (fin : Bool)

def WireMessage.sequence : WireMessage → UInt64
  | .datagram msg => msg.sequence
  | .dataChunk _ sequence _ _ => sequence

structure PendingRequest (Addr : Type) where
  clientAddr : Addr
  timestamp : Nat
  dnsTransactionId : Option UInt16

structure ActiveUdpTunnel (Addr : Type) where
  identifier : Str
  port : UInt16
  maxDatagramSize : Nat
  pendingRequests : Table UInt64 (PendingRequest Addr)
  sequence : UInt64

/-- The encoder, the text of an address, and what the connection does during a call. -/
structure Network (Addr : Type) where
  encode : DatagramMessage → Option Bytes
  addrText : Addr → Str
  takesDatagram : Bool
  takesStream : Bool

namespace ActiveUdpTunnel

variable (tunnel : ActiveUdpTunnel Addr) (net : Network Addr)

def headerOverhead : Nat := 128

/-- `send_stream`: the message, if it goes out. -/
def sendStream (data : Bytes) (sequence : UInt64) : Option WireMessage :=
  if net.takesStream then some (.dataChunk tunnel.identifier sequence data true) else none

/-- `send_datagram`: the message, if one goes out. -/
def sendDatagram (data : Bytes) (clientAddr : Addr) (sequence : UInt64) : Option WireMessage :=
  let msg : DatagramMessage :=
    { identifier := tunnel.identifier, sequence, data, port := tunnel.port
      sourceAddr := net.addrText clientAddr }
  match net.encode msg with
  | none => none
  | some encoded =>
      if encoded.length > tunnel.maxDatagramSize then tunnel.sendStream net data sequence
      else if net.takesDatagram then some (.datagram msg)
      else none

/-- The message of `send`, if one goes out with this number. -/
def message (data : Bytes) (clientAddr : Addr) (sequence : UInt64) : Option WireMessage :=
  if data.length ≤ tunnel.maxDatagramSize - headerOverhead then
    tunnel.sendDatagram net data clientAddr sequence
  else tunnel.sendStream net data sequence

def send (data : Bytes) (clientAddr : Addr) : ActiveUdpTunnel Addr × Option WireMessage :=
  ({ tunnel with sequence := tunnel.sequence + 1 },
    tunnel.message net data clientAddr tunnel.sequence)

/-- The request is stored under the number that the counter has. -/
def track (clientAddr : Addr) (dnsTransactionId : Option UInt16) (now : Nat) :
    ActiveUdpTunnel Addr :=
  { tunnel with
    sequence := tunnel.sequence + 1
    pendingRequests :=
      tunnel.pendingRequests.insert tunnel.sequence ⟨clientAddr, now, dnsTransactionId⟩ }

def sendWithTracking (data : Bytes) (clientAddr : Addr) (dnsTransactionId : Option UInt16)
    (now : Nat) : ActiveUdpTunnel Addr × Option WireMessage :=
  (tunnel.track clientAddr dnsTransactionId now).send net data clientAddr

/-- The response handler on a datagram from the peer. -/
def handleDatagram (msg : DatagramMessage) : ActiveUdpTunnel Addr :=
  if msg.identifier ≠ tunnel.identifier then tunnel
  else { tunnel with pendingRequests := tunnel.pendingRequests.erase msg.sequence }

end ActiveUdpTunnel

/-! ## Section 2: Runs -/

/-- A request that went out: its client, its message, and the number it is stored under if it is
    tracked. -/
structure Request (Addr : Type) where
  client : Addr
  message : WireMessage
  stored : Option UInt64

/-- The tunnel, the requests that went out, the numbers that were drawn and the numbers that the
    peer has answered. -/
structure TunnelRun (Addr : Type) where
  tunnel : ActiveUdpTunnel Addr
  requests : List (Request Addr)
  draws : Nat
  answered : List UInt64

inductive TunnelCall (Addr : Type) where
  | send (data : Bytes) (clientAddr : Addr) (net : Network Addr)
  | sendWithTracking (data : Bytes) (clientAddr : Addr) (dnsTransactionId : Option UInt16)
      (now : Nat) (net : Network Addr)
  | response (msg : DatagramMessage)

def logRequest (requests : List (Request Addr)) (client : Addr) (stored : Option UInt64) :
    Option WireMessage → List (Request Addr)
  | some message => ⟨client, message, stored⟩ :: requests
  | none => requests

def TunnelCall.next (s : TunnelRun Addr) : TunnelCall Addr → TunnelRun Addr
  | .send data clientAddr net =>
      let (tunnel, message) := s.tunnel.send net data clientAddr
      { s with
        tunnel := tunnel
        requests := logRequest s.requests clientAddr none message
        draws := s.draws + 1 }
  | .sendWithTracking data clientAddr dnsTransactionId now net =>
      let (tunnel, message) := s.tunnel.sendWithTracking net data clientAddr dnsTransactionId now
      { s with
        tunnel := tunnel
        requests := logRequest s.requests clientAddr (some s.tunnel.sequence) message
        draws := s.draws + 2 }
  | .response msg =>
      { s with
        tunnel := s.tunnel.handleDatagram msg
        answered :=
          if msg.identifier = s.tunnel.identifier then msg.sequence :: s.answered else s.answered }

/-- Runs on a tunnel that was opened, as long as the counter does not start over. -/
def tunnelSystem (Addr : Type) : System (TunnelRun Addr) (TunnelCall Addr) where
  init := fun s => s.tunnel.sequence = 0 ∧ s.tunnel.pendingRequests = ∅ ∧ s.requests = [] ∧
    s.draws = 0 ∧ s.answered = []
  step := fun s call s' => s' = call.next s ∧ s'.draws ≤ 2 ^ 64

/-- Responses reach their requesters: the message of a tracked request has the number under which
    the request is stored, no two messages have the same number, and what a response to a message
    removes is the entry of its request. -/
structure Routed (s : TunnelRun Addr) : Prop where
  stored : ∀ r ∈ s.requests, ∀ k, r.stored = some k → r.message.sequence = k
  distinct : (s.requests.map fun r => r.message.sequence).Nodup
  own : ∀ r ∈ s.requests, ∀ entry,
    s.tunnel.pendingRequests.lookup r.message.sequence = some entry →
      r.stored.isSome = true ∧ entry.clientAddr = r.client
  found : ∀ r ∈ s.requests, r.stored.isSome = true → r.message.sequence ∉ s.answered →
    (s.tunnel.pendingRequests.lookup r.message.sequence).isSome = true

/-- A tracked request whose message the connection takes. -/
def TrackedSent (s : TunnelRun Addr) : TunnelCall Addr → Prop
  | .sendWithTracking data clientAddr _ _ net =>
      (s.tunnel.message net data clientAddr (s.tunnel.sequence + 1)).isSome = true
  | _ => False

/-! ## Section 3: Numbers -/

section numbers
variable {tunnel : ActiveUdpTunnel Addr} {net : Network Addr}

theorem sequence_of_sendStream {data : Bytes} {sequence : UInt64} {message : WireMessage}
    (h : tunnel.sendStream net data sequence = some message) : message.sequence = sequence := by
  unfold ActiveUdpTunnel.sendStream at h
  split at h
  · rw [← Option.some.inj h]
    rfl
  · cases h

/-- A message carries the number it is sent with, on either way. -/
theorem sequence_of_message {data : Bytes} {clientAddr : Addr} {sequence : UInt64}
    {message : WireMessage} (h : tunnel.message net data clientAddr sequence = some message) :
    message.sequence = sequence := by
  unfold ActiveUdpTunnel.message at h
  split at h
  · unfold ActiveUdpTunnel.sendDatagram at h
    simp only at h
    split at h
    · cases h
    · split_ifs at h
      · exact sequence_of_sendStream h
      · rw [← Option.some.inj h]
        rfl
  · exact sequence_of_sendStream h

end numbers

/-- The state of a run in which no tracked request went out: all numbers in use are below the
    counter, and no message has the number of a stored request. -/
structure Numbered (s : TunnelRun Addr) : Prop where
  sequence : s.tunnel.sequence = UInt64.ofNat s.draws
  untracked : ∀ r ∈ s.requests, r.stored = none
  requests_lt : ∀ r ∈ s.requests, r.message.sequence.toNat < s.draws
  pending_lt : ∀ k, (s.tunnel.pendingRequests.lookup k).isSome = true → k.toNat < s.draws
  distinct : (s.requests.map fun r => r.message.sequence).Nodup
  apart : ∀ r ∈ s.requests, s.tunnel.pendingRequests.lookup r.message.sequence = none

section runs
variable {s : TunnelRun Addr}

theorem Numbered.routed (h : Numbered s) : Routed s where
  stored := fun r hr k hk => by
    rw [h.untracked r hr] at hk
    cases hk
  distinct := h.distinct
  own := fun r hr entry hentry => by
    rw [h.apart r hr] at hentry
    cases hentry
  found := fun r hr htracked => by
    rw [h.untracked r hr] at htracked
    cases htracked

/-- The next number is new. -/
theorem Numbered.toNat_sequence (h : Numbered s) (hlt : s.draws < 2 ^ 64) :
    s.tunnel.sequence.toNat = s.draws := by
  rw [h.sequence]
  exact UInt64.toNat_ofNat_of_lt' hlt

theorem Numbered.next_sequence (h : Numbered s) :
    s.tunnel.sequence + 1 = UInt64.ofNat (s.draws + 1) := by
  rw [h.sequence, UInt64.ofNat_add]
  rfl

theorem Numbered.send (h : Numbered s) (data : Bytes) (clientAddr : Addr) (net : Network Addr)
    (hlt : s.draws < 2 ^ 64) : Numbered ((TunnelCall.send data clientAddr net).next s) := by
  have hnumber := h.toNat_sequence hlt
  have hpending : s.tunnel.pendingRequests.lookup s.tunnel.sequence = none := by
    rw [← Option.not_isSome_iff_eq_none]
    intro hsome
    have := h.pending_lt _ hsome
    omega
  have hpendinglt : ∀ k, (s.tunnel.pendingRequests.lookup k).isSome = true →
      k.toNat < s.draws + 1 :=
    fun k hk => Nat.lt_succ_of_lt (h.pending_lt k hk)
  cases hmessage : s.tunnel.message net data clientAddr s.tunnel.sequence with
  | none =>
    have hlog : ((TunnelCall.send data clientAddr net).next s).requests = s.requests := by
      show logRequest s.requests clientAddr none (s.tunnel.message net data clientAddr _) = _
      rw [hmessage]
      rfl
    refine ⟨h.next_sequence, ?_, ?_, hpendinglt, ?_, ?_⟩ <;> rw [hlog]
    · exact h.untracked
    · exact fun r hr => Nat.lt_succ_of_lt (h.requests_lt r hr)
    · exact h.distinct
    · exact h.apart
  | some message =>
    have hseq := sequence_of_message hmessage
    have hlog : ((TunnelCall.send data clientAddr net).next s).requests =
        ⟨clientAddr, message, none⟩ :: s.requests := by
      show logRequest s.requests clientAddr none (s.tunnel.message net data clientAddr _) = _
      rw [hmessage]
      rfl
    refine ⟨h.next_sequence, ?_, ?_, hpendinglt, ?_, ?_⟩ <;> rw [hlog]
    · exact List.forall_mem_cons.mpr ⟨rfl, h.untracked⟩
    · refine List.forall_mem_cons.mpr ⟨?_, fun r hr => Nat.lt_succ_of_lt (h.requests_lt r hr)⟩
      show message.sequence.toNat < s.draws + 1
      rw [hseq, hnumber]
      exact Nat.lt_succ_self _
    · rw [List.map_cons, List.nodup_cons]
      refine ⟨?_, h.distinct⟩
      rw [List.mem_map]
      rintro ⟨r, hr, heq⟩
      have hrlt := h.requests_lt r hr
      rw [heq, hseq, hnumber] at hrlt
      exact Nat.lt_irrefl _ hrlt
    · refine List.forall_mem_cons.mpr ⟨?_, h.apart⟩
      show s.tunnel.pendingRequests.lookup message.sequence = none
      rw [hseq]
      exact hpending

/-- A tracked request whose message does not go out leaves its entry behind. -/
theorem Numbered.track (h : Numbered s) {data : Bytes} {clientAddr : Addr}
    {dnsTransactionId : Option UInt16} {now : Nat} {net : Network Addr}
    (hnone : s.tunnel.message net data clientAddr (s.tunnel.sequence + 1) = none)
    (hlt : s.draws < 2 ^ 64) :
    Numbered ((TunnelCall.sendWithTracking data clientAddr dnsTransactionId now net).next s) := by
  have hnumber := h.toNat_sequence hlt
  have hlog : ((TunnelCall.sendWithTracking data clientAddr dnsTransactionId now net).next
      s).requests = s.requests := by
    show logRequest s.requests clientAddr _
      (s.tunnel.message net data clientAddr (s.tunnel.sequence + 1)) = _
    rw [hnone]
    rfl
  have hlookup : ∀ k, ((TunnelCall.sendWithTracking data clientAddr dnsTransactionId now net).next
      s).tunnel.pendingRequests.lookup k =
      if k = s.tunnel.sequence then some ⟨clientAddr, now, dnsTransactionId⟩
      else s.tunnel.pendingRequests.lookup k := fun k => Table.lookup_insert_eq _ _ k _
  refine ⟨?_, ?_, ?_, fun k hk => ?_, ?_, ?_⟩
  · show s.tunnel.sequence + 1 + 1 = UInt64.ofNat (s.draws + 2)
    rw [h.next_sequence, UInt64.ofNat_add (s.draws + 1) 1]
    rfl
  · rw [hlog]
    exact h.untracked
  · rw [hlog]
    exact fun r hr => Nat.lt_add_right 2 (h.requests_lt r hr)
  · rw [hlookup] at hk
    show k.toNat < s.draws + 2
    split at hk
    · next heq =>
      rw [heq, hnumber]
      omega
    · exact Nat.lt_add_right 2 (h.pending_lt k hk)
  · rw [hlog]
    exact h.distinct
  · rw [hlog]
    intro r hr
    have hrlt := h.requests_lt r hr
    rw [hlookup, if_neg, h.apart r hr]
    intro heq
    rw [heq, hnumber] at hrlt
    exact Nat.lt_irrefl _ hrlt

theorem Numbered.response (h : Numbered s) (msg : DatagramMessage) :
    Numbered ((TunnelCall.response msg).next s) := by
  have hlookup : ∀ k, (s.tunnel.handleDatagram msg).pendingRequests.lookup k =
      s.tunnel.pendingRequests.lookup k ∨
        (s.tunnel.handleDatagram msg).pendingRequests.lookup k = none := by
    intro k
    unfold ActiveUdpTunnel.handleDatagram
    split
    · exact .inl rfl
    · rw [Table.lookup_erase_eq]
      split
      · exact .inr rfl
      · exact .inl rfl
  refine ⟨?_, h.untracked, h.requests_lt, fun k hk => ?_, h.distinct, fun r hr => ?_⟩
  · refine Eq.trans ?_ h.sequence
    show (s.tunnel.handleDatagram msg).sequence = s.tunnel.sequence
    unfold ActiveUdpTunnel.handleDatagram
    split <;> rfl
  · have hk' : ((s.tunnel.handleDatagram msg).pendingRequests.lookup k).isSome = true := hk
    rcases hlookup k with heq | hnone
    · exact h.pending_lt k (heq ▸ hk')
    · rw [hnone] at hk'
      cases hk'
  · rcases hlookup r.message.sequence with heq | hnone
    · exact heq.trans (h.apart r hr)
    · exact hnone

/-- The message of a tracked request has the number after the one it is stored under. -/
theorem not_routed_of_trackedSent {call : TunnelCall Addr} (h : TrackedSent s call) :
    ¬ Routed (call.next s) := by
  intro hrouted
  cases call with
  | send data clientAddr net => exact h
  | response msg => exact h
  | sendWithTracking data clientAddr dnsTransactionId now net =>
    obtain ⟨message, hmessage⟩ := Option.isSome_iff_exists.mp h
    have hlog : ((TunnelCall.sendWithTracking data clientAddr dnsTransactionId now net).next
        s).requests = ⟨clientAddr, message, some s.tunnel.sequence⟩ :: s.requests := by
      show logRequest s.requests clientAddr _
        (s.tunnel.message net data clientAddr (s.tunnel.sequence + 1)) = _
      rw [hmessage]
      rfl
    have heq := hrouted.stored ⟨clientAddr, message, some s.tunnel.sequence⟩
      (by rw [hlog]; exact List.mem_cons_self) _ rfl
    rw [sequence_of_message hmessage] at heq
    exact absurd heq (by simp)

theorem Numbered.next (h : Numbered s) {call : TunnelCall Addr} (hok : ¬ TrackedSent s call)
    (hle : (call.next s).draws ≤ 2 ^ 64) : Numbered (call.next s) := by
  cases call with
  | send data clientAddr net => exact h.send data clientAddr net hle
  | sendWithTracking data clientAddr dnsTransactionId now net =>
    refine h.track ?_ (Nat.lt_of_lt_of_le (Nat.lt_add_of_pos_right (by decide)) hle)
    exact Option.not_isSome_iff_eq_none.mp hok
  | response msg => exact h.response msg

end runs

/-- In all states of a run responses reach their requesters just when the message of no tracked
    request goes out. -/
theorem routed_iff (Addr : Type) (calls : List (TunnelRun Addr × TunnelCall Addr))
    (s : TunnelRun Addr) (h : (tunnelSystem Addr).Exec calls s) :
    (∀ t ∈ calls.map Prod.fst ++ [s], Routed t) ↔
      ∀ call ∈ calls, ¬ TrackedSent call.1 call.2 := by
  refine System.Exec.states_iff_of Routed Numbered (fun s call => ¬ TrackedSent s call) ?_ ?_ h
  · rintro s ⟨hsequence, hpending, hrequests, hdraws, -⟩
    have hnumbered : Numbered s := by
      refine ⟨by rw [hsequence, hdraws]; rfl, ?_, ?_, ?_, ?_, ?_⟩ <;> simp [hrequests, hpending]
    exact ⟨hnumbered.routed, hnumbered⟩
  · rintro s call _ hs ⟨rfl, hle⟩
    have hiff : Routed (call.next s) ↔ ¬ TrackedSent s call :=
      ⟨fun hrouted hsent => not_routed_of_trackedSent hsent hrouted,
        fun hok => (hs.next hok hle).routed⟩
    exact ⟨hiff, fun hrouted => hs.next (hiff.mp hrouted) hle⟩

/-- A tunnel that was just opened, and a network that takes everything. -/
def openTunnel : TunnelRun Nat := ⟨⟨['u'], 53, 1200, ∅, 0⟩, [], 0, []⟩

theorem openTunnel_exec : (tunnelSystem Nat).Exec [] openTunnel :=
  System.Exec.nil (show openTunnel.tunnel.sequence = 0 ∧ _ from ⟨rfl, rfl, rfl, rfl, rfl⟩)

def goodNetwork : Network Nat := ⟨fun msg => some msg.data, fun _ => [], true, true⟩

/-- A network that takes nothing. -/
def downNetwork : Network Nat := ⟨fun msg => some msg.data, fun _ => [], false, false⟩

/-- One client sends, another one tries to send with tracking, a third one sends. -/
def sentFirst : TunnelRun Nat := (TunnelCall.send [1] 7 goodNetwork).next openTunnel

def trackedSecond : TunnelRun Nat :=
  (TunnelCall.sendWithTracking [2] 8 (some 0x1234) 5 downNetwork).next sentFirst

def sentThird : TunnelRun Nat := (TunnelCall.send [3] 9 goodNetwork).next trackedSecond

/-- The tracked request is stored and not sent, and the others have numbers of their own. -/
theorem refused_request_routed :
    (tunnelSystem Nat).Exec
        [(openTunnel, .send [1] 7 goodNetwork),
          (sentFirst, .sendWithTracking [2] 8 (some 0x1234) 5 downNetwork),
          (trackedSecond, .send [3] 9 goodNetwork)] sentThird ∧
      (sentThird.tunnel.pendingRequests.lookup 1).isSome = true ∧
      sentThird.requests.map (fun r => r.message.sequence) = [3, 0] ∧ Routed sentThird := by
  have hfirst : (tunnelSystem Nat).Exec [(openTunnel, .send [1] 7 goodNetwork)] sentFirst :=
    openTunnel_exec.snoc ⟨rfl, by decide⟩
  have hsecond : (tunnelSystem Nat).Exec
      [(openTunnel, .send [1] 7 goodNetwork),
        (sentFirst, .sendWithTracking [2] 8 (some 0x1234) 5 downNetwork)] trackedSecond :=
    hfirst.snoc ⟨rfl, by decide⟩
  have hexec : (tunnelSystem Nat).Exec
      [(openTunnel, .send [1] 7 goodNetwork),
        (sentFirst, .sendWithTracking [2] 8 (some 0x1234) 5 downNetwork),
        (trackedSecond, .send [3] 9 goodNetwork)] sentThird :=
    hsecond.snoc ⟨rfl, by decide⟩
  refine ⟨hexec, by decide, by decide, (routed_iff Nat _ _ hexec).mpr ?_ _ (by simp)⟩
  have hrefused :
      ¬ TrackedSent sentFirst (.sendWithTracking [2] 8 (some 0x1234) 5 downNetwork) := by
    unfold TrackedSent
    decide
  simp only [List.mem_cons, List.not_mem_nil, or_false, forall_eq_or_imp, forall_eq]
  exact ⟨id, hrefused, id⟩

/-- The first tracked request is stored under zero and sent with the number one, and the response
    to it leaves it pending. -/
theorem tracked_request_lost :
    (tunnelSystem Nat).Exec [(openTunnel, .sendWithTracking [1] 7 none 0 goodNetwork)]
        ((TunnelCall.sendWithTracking [1] 7 none 0 goodNetwork).next openTunnel) ∧
      (((TunnelCall.sendWithTracking [1] 7 none 0 goodNetwork).next openTunnel).requests.map
        fun r => (r.client, r.stored, r.message.sequence)) = [(7, some 0, 1)] ∧
      (((TunnelCall.response ⟨['u'], 1, [], 53, [], none, 0⟩).next
        ((TunnelCall.sendWithTracking [1] 7 none 0 goodNetwork).next
          openTunnel)).tunnel.pendingRequests.lookup 0).isSome = true := by
  refine ⟨openTunnel_exec.snoc ⟨rfl, by decide⟩, ?_, ?_⟩ <;> decide

end Synvoid.Tunnel
