import Synvoid.Framework.Checked
import Synvoid.Framework.Table
import Synvoid.Framework.Transition

/-! # Pooled buffers

    Model of `BufferPool` and `PooledBuf` (`synvoid-utils/src/buffer/pool.rs`). A
    handle owns a buffer while it is alive; a dropped handle leaves its buffer to
    the cache of the thread or to an arena, from which later handles take it. A
    global counter adds up the capacities of the live handles.

    A `BytesMut` is its bytes and a capacity that is at least their number. What
    an operation that moves or reallocates the buffer makes of the capacity is up
    to the allocator, and so is a parameter of the call; a buffer that fits into
    its capacity is not reallocated. All buffers that are alive fit into the
    address space, else the allocation aborts the program.

    The calls may come from any threads, one after the other.
-/

namespace Synvoid.Utils

open Synvoid.Framework

/-! ## Section 1: Buffers -/

structure BytesMut where
  bytes : Bytes
  capacity : Nat
  length_le : bytes.length ≤ capacity

namespace BytesMut

variable (buf : BytesMut)

/-- The capacity after a reservation for `len` bytes. -/
def reserved (len chosen : Nat) : Nat := if len ≤ buf.capacity then buf.capacity else max len chosen

theorem le_reserved (len chosen : Nat) : len ≤ buf.reserved len chosen := by
  unfold reserved
  split
  · assumption
  · exact Nat.le_max_left _ _

def withCapacity (capacity chosen : Nat) : BytesMut where
  bytes := []
  capacity := max capacity chosen
  length_le := Nat.zero_le _

def clear : BytesMut where
  bytes := []
  capacity := buf.capacity
  length_le := Nat.zero_le _

def truncate (len : Nat) : BytesMut where
  bytes := buf.bytes.take len
  capacity := buf.capacity
  length_le := (List.length_take_le' _ _).trans buf.length_le

def extendFromSlice (data : Bytes) (chosen : Nat) : BytesMut where
  bytes := buf.bytes ++ data
  capacity := buf.reserved (buf.bytes ++ data).length chosen
  length_le := buf.le_reserved _ _

/-- `resize` with the value zero. -/
def resize (len chosen : Nat) : BytesMut :=
  if len ≤ buf.bytes.length then buf.truncate len
  else buf.extendFromSlice (List.replicate (len - buf.bytes.length) 0) chosen

/-- What `advance` and `split_to` leave; neither is called for more bytes than there are. -/
def dropFront (n chosen : Nat) : BytesMut where
  bytes := buf.bytes.drop n
  capacity := max (buf.bytes.drop n).length chosen
  length_le := Nat.le_max_left _ _

end BytesMut

/-! ## Section 2: Handles -/

inductive BufferTier where
  | small
  | medium
  | large
  | jumbo
  deriving DecidableEq

namespace BufferTier

def bufSize : BufferTier → Nat
  | .small => 4 * 1024
  | .medium => 64 * 1024
  | .large => 256 * 1024
  | .jumbo => 512 * 1024

/-- The number of buffers in an arena of a shard. -/
def poolCap : BufferTier → Nat
  | .small => 512 / 8
  | .medium => 256 / 8
  | .large => 64 / 8
  | .jumbo => 32 / 8

/-- `for_capacity`; `acquire_inner` selects the tier of a size by the same bounds. -/
def forCapacity (cap : Nat) : BufferTier :=
  if cap ≤ bufSize .small then .small
  else if cap ≤ bufSize .medium then .medium
  else if cap ≤ bufSize .large then .large
  else .jumbo

end BufferTier

/-- `GLOBAL_ALLOCATED_BYTES`, and whether a subtraction has ever gone below zero. -/
structure AllocatedBytes where
  value : UInt64
  underflowed : Bool

namespace AllocatedBytes

def fetchAdd (c : AllocatedBytes) (n : Nat) : AllocatedBytes :=
  { c with value := c.value + UInt64.ofNat n }

def fetchSub (c : AllocatedBytes) (n : Nat) : AllocatedBytes where
  value := c.value - UInt64.ofNat n
  underflowed := c.underflowed || decide (c.value.toNat < n)

end AllocatedBytes

structure PooledBuf where
  buf : Option BytesMut
  tier : BufferTier
  requestedSize : Nat
  allocatedSize : Nat
  globalOrigin : Bool

namespace PooledBuf

variable (handle : PooledBuf) (c : AllocatedBytes)

def capacity : Nat := handle.buf.elim 0 BytesMut.capacity

def asSlice : Checked Bytes :=
  match handle.buf with
  | some buf => range buf.bytes 0 handle.requestedSize
  | none => .ok []

def syncCapacityAccounting : PooledBuf × AllocatedBytes :=
  match handle.buf with
  | none => (handle, c)
  | some buf =>
      let cap := buf.capacity
      let handle := { handle with tier := .forCapacity cap }
      if cap = handle.allocatedSize then (handle, c)
      else if cap > handle.allocatedSize then
        ({ handle with allocatedSize := cap }, c.fetchAdd (cap - handle.allocatedSize))
      else ({ handle with allocatedSize := cap }, c.fetchSub (handle.allocatedSize - cap))

def resize (newLen chosen : Nat) : PooledBuf × AllocatedBytes :=
  match handle.buf with
  | none => (handle, c)
  | some buf => syncCapacityAccounting
      { handle with buf := some (buf.resize newLen chosen), requestedSize := newLen } c

def advance (cnt chosen : Nat) : PooledBuf × AllocatedBytes :=
  match handle.buf with
  | none => (handle, c)
  | some buf =>
      let advanceAmt := min cnt handle.requestedSize
      syncCapacityAccounting
        { handle with
          buf := some (buf.dropFront advanceAmt chosen)
          requestedSize := handle.requestedSize - advanceAmt } c

def truncate (newLen : Nat) : PooledBuf × AllocatedBytes :=
  match handle.buf with
  | none => (handle, c)
  | some buf => syncCapacityAccounting
      { handle with
        buf := some (buf.truncate newLen), requestedSize := min newLen handle.requestedSize } c

/-- `split_to`, without the bytes that leave the pool. -/
def splitTo (at' chosen : Nat) : PooledBuf × AllocatedBytes :=
  match handle.buf with
  | none => (handle, c)
  | some buf =>
      let splitAmt := min at' handle.requestedSize
      syncCapacityAccounting
        { handle with
          buf := some (buf.dropFront splitAmt chosen)
          requestedSize := handle.requestedSize - splitAmt } c

def takeBytes : PooledBuf × AllocatedBytes :=
  match handle.buf with
  | none => (handle, c)
  | some _ =>
      ({ handle with buf := none, allocatedSize := 0, requestedSize := 0 },
        c.fetchSub handle.allocatedSize)

/-- The capacity is not looked at. -/
def clear (chosen : Nat) : PooledBuf × AllocatedBytes :=
  match handle.buf with
  | none => (handle, c)
  | some buf => ({ handle with buf := some (buf.clear.resize handle.requestedSize chosen) }, c)

def extendFromSlice (data : Bytes) (chosen : Nat) : PooledBuf × AllocatedBytes :=
  match handle.buf with
  | none => (handle, c)
  | some buf =>
      let buf := buf.extendFromSlice data chosen
      syncCapacityAccounting { handle with buf := some buf, requestedSize := buf.bytes.length } c

def putSlice (data : Bytes) (chosen : Nat) : PooledBuf × AllocatedBytes :=
  handle.extendFromSlice c data chosen

end PooledBuf

/-! ## Section 3: The pool -/

/-- The pool of a thread, which uses one shard only, and the shards of the global pool. -/
inductive ArenaId where
  | ofThread (thread : Nat)
  | ofShard (shard : Fin 8)
  deriving DecidableEq

/-- Free buffers, the last one returned first; the counter; and the live handles. -/
structure PoolState where
  tlsCache : Nat × BufferTier → List BytesMut
  arenas : ArenaId × BufferTier → List BytesMut
  allocated : AllocatedBytes
  handles : Table Nat PooledBuf

/-- `TierArena::acquire`: the buffer, and what is left in the arena. -/
def arenaAcquire (tier : BufferTier) (requestedSize fresh grown : Nat) :
    List BytesMut → BytesMut × List BytesMut
  | buf :: stack => (buf.clear.resize requestedSize grown, stack)
  | [] => ((BytesMut.withCapacity tier.bufSize fresh).resize requestedSize grown, [])

/-- `TierArena::release`. -/
def arenaRelease (tier : BufferTier) (buf : BytesMut) (stack : List BytesMut) : List BytesMut :=
  if buf.capacity > 0 ∧ stack.length < tier.poolCap then buf.clear :: stack else stack

namespace PoolState

variable (shardOf : Nat → Fin 8) (s : PoolState)

def new : PoolState where
  tlsCache := fun _ => []
  arenas := fun _ => []
  allocated := ⟨0, false⟩
  handles := ∅

/-- The shard that a pool uses on a thread. -/
def arenaId (thread : Nat) (fromGlobal : Bool) : ArenaId :=
  if fromGlobal then .ofShard (shardOf thread) else .ofThread thread

/-- `acquire_inner` on a thread: the handle, and the pool without its buffer. -/
def acquireInner (thread : Nat) (fromGlobal : Bool) (size fresh grown : Nat) :
    PooledBuf × PoolState :=
  let tier := BufferTier.forCapacity size
  match s.tlsCache (thread, tier) with
  | buf :: cache =>
      let handle : PooledBuf := ⟨some (buf.clear.resize size grown), tier, size, 0, fromGlobal⟩
      let (handle, allocated) := handle.syncCapacityAccounting s.allocated
      (handle, { s with
        tlsCache := Function.update s.tlsCache (thread, tier) cache, allocated := allocated })
  | [] =>
      let key := (arenaId shardOf thread fromGlobal, tier)
      let (buf, stack) := arenaAcquire tier size fresh grown (s.arenas key)
      let handle : PooledBuf := ⟨some buf, tier, size, 0, fromGlobal⟩
      let (handle, allocated) := handle.syncCapacityAccounting s.allocated
      (handle, { s with arenas := Function.update s.arenas key stack, allocated := allocated })

def releaseToGlobal (thread : Nat) (fromGlobal : Bool) (buf : BytesMut) (tier : BufferTier) :
    PoolState :=
  let key := (arenaId shardOf thread fromGlobal, tier)
  { s with arenas := Function.update s.arenas key (arenaRelease tier buf (s.arenas key)) }

/-- `PooledBuf::drop` on a thread. -/
def dropHandle (thread : Nat) (handle : PooledBuf) : PoolState :=
  match handle.buf with
  | none => s
  | some buf =>
      let s := { s with allocated := s.allocated.fetchSub handle.allocatedSize }
      if buf.capacity > BufferTier.jumbo.bufSize * 4 then s
      else if handle.globalOrigin then s.releaseToGlobal shardOf thread true buf handle.tier
      else
        let cache := s.tlsCache (thread, handle.tier)
        if cache.length < 16 then
          { s with tlsCache := Function.update s.tlsCache (thread, handle.tier) (buf :: cache) }
        else s.releaseToGlobal shardOf thread false buf handle.tier

/-- Puts the result of an operation on a handle back. -/
def put (id : Nat) (result : PooledBuf × AllocatedBytes) : PoolState :=
  { s with handles := s.handles.insert id result.1, allocated := result.2 }

/-- The capacities of the live handles. -/
def liveCapacity : Nat := s.handles.total PooledBuf.capacity

end PoolState

/-! ## Section 4: Runs -/

/-- A call on a live handle, with the choices of the allocator. -/
inductive HandleCall where
  | resize (newLen chosen : Nat)
  | advance (cnt chosen : Nat)
  | truncate (newLen : Nat)
  | splitTo (at' chosen : Nat)
  | clear (chosen : Nat)
  | extendFromSlice (data : Bytes) (chosen : Nat)
  | putSlice (data : Bytes) (chosen : Nat)
  | takeBytes

def HandleCall.run (handle : PooledBuf) (c : AllocatedBytes) :
    HandleCall → PooledBuf × AllocatedBytes
  | .resize newLen chosen => handle.resize c newLen chosen
  | .advance cnt chosen => handle.advance c cnt chosen
  | .truncate newLen => handle.truncate c newLen
  | .splitTo at' chosen => handle.splitTo c at' chosen
  | .clear chosen => handle.clear c chosen
  | .extendFromSlice data chosen => handle.extendFromSlice c data chosen
  | .putSlice data chosen => handle.putSlice c data chosen
  | .takeBytes => handle.takeBytes c

inductive PoolCall where
  | acquire (thread : Nat) (fromGlobal : Bool) (id size fresh grown : Nat)
  | use (id : Nat) (call : HandleCall)
  | drop (thread id : Nat)

/-- A handle that is acquired is a new one, every other call is on a live one. -/
inductive PoolStep (shardOf : Nat → Fin 8) (s : PoolState) : PoolCall → PoolState → Prop where
  | acquire {thread : Nat} {fromGlobal : Bool} {id size fresh grown : Nat}
      (hnew : s.handles.lookup id = none) :
      PoolStep shardOf s (.acquire thread fromGlobal id size fresh grown)
        (let (handle, s') := s.acquireInner shardOf thread fromGlobal size fresh grown
        { s' with handles := s'.handles.insert id handle })
  | use {id : Nat} {handle : PooledBuf} {call : HandleCall}
      (hlive : s.handles.lookup id = some handle) :
      PoolStep shardOf s (.use id call) (s.put id (call.run handle s.allocated))
  | drop {thread id : Nat} {handle : PooledBuf} (hlive : s.handles.lookup id = some handle) :
      PoolStep shardOf s (.drop thread id)
        (let s' := s.dropHandle shardOf thread handle
        { s' with handles := s'.handles.erase id })

/-- Runs of calls; the live buffers fit into the address space. -/
def poolSystem (shardOf : Nat → Fin 8) : System PoolState PoolCall where
  init := fun s => s = .new
  step := fun s call s' => PoolStep shardOf s call s' ∧ s'.liveCapacity < 2 ^ 64

/-- The counter is the sum of the capacities of the live handles and was never lowered below zero,
    and every handle gives access to all the bytes of its buffer and to nothing else. -/
structure Accounted (s : PoolState) : Prop where
  counter : s.allocated.value.toNat = s.liveCapacity
  no_underflow : s.allocated.underflowed = false
  slices : ∀ id handle, s.handles.lookup id = some handle →
    handle.asSlice = .ok (handle.buf.elim [] BytesMut.bytes)

/-! ## Section 5: What the operations do -/

/-- The counter has the value `total` and was never lowered below zero. -/
def AllocatedBytes.Holds (c : AllocatedBytes) (total : Nat) : Prop :=
  c.value.toNat = total ∧ c.underflowed = false

theorem AllocatedBytes.Holds.fetchAdd {c : AllocatedBytes} {total n : Nat} (h : c.Holds total)
    (hlt : total + n < 2 ^ 64) : (c.fetchAdd n).Holds (total + n) := by
  obtain ⟨hvalue, hflag⟩ := h
  refine ⟨?_, hflag⟩
  show (c.value + UInt64.ofNat n).toNat = total + n
  rw [UInt64.toNat_add, UInt64.toNat_ofNat_of_lt' (show n < 2 ^ 64 by omega), hvalue]
  exact Nat.mod_eq_of_lt hlt

theorem AllocatedBytes.Holds.fetchSub {c : AllocatedBytes} {total n : Nat} (h : c.Holds total)
    (hle : n ≤ total) : (c.fetchSub n).Holds (total - n) := by
  obtain ⟨hvalue, hflag⟩ := h
  have hlt := c.value.toNat_lt
  have hn : (UInt64.ofNat n).toNat = n := UInt64.toNat_ofNat_of_lt' (show n < 2 ^ 64 by omega)
  constructor
  · show (c.value - UInt64.ofNat n).toNat = total - n
    rw [UInt64.toNat_sub_of_le _ _ (UInt64.le_iff_toNat_le.mpr (by omega)), hn, hvalue]
  · show (c.underflowed || decide (c.value.toNat < n)) = false
    rw [hflag, Bool.false_or, decide_eq_false_iff_not]
    omega

/-- The requested size is the length of the buffer, and its capacity is what was counted. -/
structure PooledBuf.Consistent (handle : PooledBuf) : Prop where
  requested : ∀ buf, handle.buf = some buf → handle.requestedSize = buf.bytes.length
  counted : handle.allocatedSize = handle.capacity

section operations
variable {handle : PooledBuf} {c : AllocatedBytes} {rest : Nat}

@[simp] theorem syncCapacityAccounting_buf :
    (handle.syncCapacityAccounting c).1.buf = handle.buf := by
  unfold PooledBuf.syncCapacityAccounting
  split
  · rfl
  · simp only
    split_ifs <;> rfl

@[simp] theorem syncCapacityAccounting_requestedSize :
    (handle.syncCapacityAccounting c).1.requestedSize = handle.requestedSize := by
  unfold PooledBuf.syncCapacityAccounting
  split
  · rfl
  · simp only
    split_ifs <;> rfl

/-- The counter follows the capacity of the buffer. -/
theorem sync_counted {buf : BytesMut} (hbuf : handle.buf = some buf)
    (hcounter : c.Holds (rest + handle.allocatedSize)) (hlt : rest + buf.capacity < 2 ^ 64) :
    (handle.syncCapacityAccounting c).1.allocatedSize = buf.capacity ∧
      (handle.syncCapacityAccounting c).2.Holds (rest + buf.capacity) := by
  unfold PooledBuf.syncCapacityAccounting
  rw [hbuf]
  simp only
  split_ifs with heq hgt
  · rw [heq]
    exact ⟨rfl, hcounter⟩
  · refine ⟨rfl, ?_⟩
    have hadd := hcounter.fetchAdd (show rest + handle.allocatedSize +
      (buf.capacity - handle.allocatedSize) < 2 ^ 64 by omega)
    rwa [show rest + handle.allocatedSize + (buf.capacity - handle.allocatedSize) =
      rest + buf.capacity by omega] at hadd
  · refine ⟨rfl, ?_⟩
    have hsub := hcounter.fetchSub (show handle.allocatedSize - buf.capacity ≤
      rest + handle.allocatedSize by omega)
    rwa [show rest + handle.allocatedSize - (handle.allocatedSize - buf.capacity) =
      rest + buf.capacity by omega] at hsub

/-- A handle whose buffer was exchanged and then counted. -/
theorem sync_consistent {buf : BytesMut} (hbuf : handle.buf = some buf)
    (hsize : handle.requestedSize = buf.bytes.length)
    (hcounter : c.Holds (rest + handle.allocatedSize))
    (hlt : rest + (handle.syncCapacityAccounting c).1.capacity < 2 ^ 64) :
    (handle.syncCapacityAccounting c).1.Consistent ∧
      (handle.syncCapacityAccounting c).2.Holds
        (rest + (handle.syncCapacityAccounting c).1.capacity) := by
  have hcapacity : (handle.syncCapacityAccounting c).1.capacity = buf.capacity := by
    unfold PooledBuf.capacity
    rw [syncCapacityAccounting_buf, hbuf]
    rfl
  rw [hcapacity] at hlt ⊢
  obtain ⟨hallocated, hholds⟩ := sync_counted hbuf hcounter hlt
  refine ⟨⟨fun buf' hbuf' => ?_, by rw [hallocated, hcapacity]⟩, hholds⟩
  rw [syncCapacityAccounting_buf, hbuf] at hbuf'
  rw [syncCapacityAccounting_requestedSize, hsize, Option.some.inj hbuf']

theorem length_resize (buf : BytesMut) (len chosen : Nat) :
    (buf.resize len chosen).bytes.length = len := by
  unfold BytesMut.resize
  split
  · next hle => exact List.length_take_of_le hle
  · simp only [BytesMut.extendFromSlice, List.length_append, List.length_replicate]
    omega

/-- A buffer that was cleared has zeros only. -/
theorem bytes_resize_clear (buf : BytesMut) (len chosen : Nat) :
    (buf.clear.resize len chosen).bytes = List.replicate len 0 := by
  unfold BytesMut.resize
  split
  · next hle => simp [Nat.le_zero.mp hle, BytesMut.truncate, BytesMut.clear]
  · rfl

theorem capacity_resize_of_le {buf : BytesMut} {len chosen : Nat} (h : len ≤ buf.capacity) :
    (buf.resize len chosen).capacity = buf.capacity := by
  unfold BytesMut.resize
  split
  · rfl
  · next hgt =>
    have hlen :
        (buf.bytes ++ List.replicate (len - buf.bytes.length) (0 : UInt8)).length = len := by
      rw [List.length_append, List.length_replicate]
      omega
    simp only [BytesMut.extendFromSlice, BytesMut.reserved]
    rw [hlen, if_pos h]

/-- A call on a handle exchanges its buffer and counts it, or exchanges it for one of the same
    capacity, or gives it away. -/
theorem run_cases {buf : BytesMut} (hbuf : handle.buf = some buf)
    (hsize : handle.requestedSize = buf.bytes.length) (call : HandleCall) :
    (∃ buf', call.run handle c = PooledBuf.syncCapacityAccounting
        { handle with buf := some buf', requestedSize := buf'.bytes.length } c) ∨
      (∃ buf', buf'.capacity = buf.capacity ∧ buf'.bytes.length = buf.bytes.length ∧
        call.run handle c = ({ handle with buf := some buf' }, c)) ∨
      call.run handle c = ({ handle with buf := none, allocatedSize := 0, requestedSize := 0 },
        c.fetchSub handle.allocatedSize) := by
  cases call with
  | resize newLen chosen =>
    refine .inl ⟨buf.resize newLen chosen, ?_⟩
    rw [length_resize, HandleCall.run, PooledBuf.resize, hbuf]
  | advance cnt chosen =>
    refine .inl ⟨buf.dropFront (min cnt buf.bytes.length) chosen, ?_⟩
    rw [HandleCall.run, PooledBuf.advance, hbuf]
    simp only [hsize, BytesMut.dropFront, List.length_drop]
  | truncate newLen =>
    refine .inl ⟨buf.truncate newLen, ?_⟩
    rw [HandleCall.run, PooledBuf.truncate, hbuf]
    simp only [hsize, BytesMut.truncate, List.length_take]
  | splitTo at' chosen =>
    refine .inl ⟨buf.dropFront (min at' buf.bytes.length) chosen, ?_⟩
    rw [HandleCall.run, PooledBuf.splitTo, hbuf]
    simp only [hsize, BytesMut.dropFront, List.length_drop]
  | clear chosen =>
    refine .inr (.inl ⟨buf.clear.resize handle.requestedSize chosen, ?_, ?_, ?_⟩)
    · exact capacity_resize_of_le (hsize ▸ buf.length_le)
    · rw [length_resize, hsize]
    · rw [HandleCall.run, PooledBuf.clear, hbuf]
  | extendFromSlice data chosen =>
    refine .inl ⟨buf.extendFromSlice data chosen, ?_⟩
    rw [HandleCall.run, PooledBuf.extendFromSlice, hbuf]
  | putSlice data chosen =>
    refine .inl ⟨buf.extendFromSlice data chosen, ?_⟩
    rw [HandleCall.run, PooledBuf.putSlice, PooledBuf.extendFromSlice, hbuf]
  | takeBytes =>
    refine .inr (.inr ?_)
    rw [HandleCall.run, PooledBuf.takeBytes, hbuf]

/-- Without a buffer no call does anything. -/
theorem run_none (hbuf : handle.buf = none) (call : HandleCall) :
    call.run handle c = (handle, c) := by
  cases call <;> simp [HandleCall.run, PooledBuf.resize, PooledBuf.advance, PooledBuf.truncate,
    PooledBuf.splitTo, PooledBuf.clear, PooledBuf.extendFromSlice, PooledBuf.putSlice,
    PooledBuf.takeBytes, hbuf]

/-- One call on a handle, beside other handles that have the capacity `rest`. -/
theorem PooledBuf.Consistent.run (h : handle.Consistent)
    (hcounter : c.Holds (rest + handle.capacity)) (call : HandleCall)
    (hlt : rest + (call.run handle c).1.capacity < 2 ^ 64) :
    (call.run handle c).1.Consistent ∧
      (call.run handle c).2.Holds (rest + (call.run handle c).1.capacity) := by
  cases hbuf : handle.buf with
  | none =>
    rw [run_none hbuf]
    exact ⟨h, hcounter⟩
  | some buf =>
    have hcapacity : handle.capacity = buf.capacity := by rw [PooledBuf.capacity, hbuf]; rfl
    have hallocated := h.counted
    rcases run_cases hbuf (h.requested buf hbuf) call with
      ⟨buf', heq⟩ | ⟨buf', hcap, hlen, heq⟩ | heq
    · rw [heq] at hlt ⊢
      exact sync_consistent rfl rfl (hallocated.symm ▸ hcounter) hlt
    · rw [heq] at hlt ⊢
      have hcapacity' : PooledBuf.capacity { handle with buf := some buf' } = handle.capacity :=
        hcap.trans hcapacity.symm
      rw [hcapacity']
      refine ⟨⟨fun found hfound => ?_, hallocated.trans hcapacity'.symm⟩, hcounter⟩
      rw [← Option.some.inj hfound, hlen]
      exact h.requested buf hbuf
    · rw [heq, hallocated]
      refine ⟨⟨fun found hfound => (by cases hfound), rfl⟩, ?_⟩
      have hsub := hcounter.fetchSub (Nat.le_add_left handle.capacity rest)
      rwa [Nat.add_sub_cancel] at hsub

end operations

/-! ## Section 6: Runs -/

/-- The invariant of runs. -/
structure PoolInv (s : PoolState) : Prop where
  consistent : ∀ id handle, s.handles.lookup id = some handle → handle.Consistent
  counter : s.allocated.Holds s.liveCapacity

section runs
variable {shardOf : Nat → Fin 8} {s : PoolState}

theorem liveCapacity_insert (s : PoolState) (id : Nat) (handle : PooledBuf) :
    Table.total PooledBuf.capacity (s.handles.insert id handle) =
      Table.total PooledBuf.capacity (s.handles.erase id) + handle.capacity := by
  rw [Table.total_insert, Nat.add_comm]

theorem liveCapacity_erase (s : PoolState) (id : Nat) :
    s.liveCapacity = Table.total PooledBuf.capacity (s.handles.erase id) +
      (s.handles.lookup id).elim 0 PooledBuf.capacity := Table.total_erase _ _ _

/-- The handle that an acquisition gives has `size` zeros, and is counted. -/
theorem acquireInner_eq (s : PoolState) (thread : Nat) (fromGlobal : Bool)
    (size fresh grown : Nat) :
    ∃ handle : PooledBuf, ∃ buf : BytesMut, handle.buf = some buf ∧
      buf.bytes = List.replicate size 0 ∧ handle.requestedSize = size ∧ handle.allocatedSize = 0 ∧
      (s.acquireInner shardOf thread fromGlobal size fresh grown).1 =
        (handle.syncCapacityAccounting s.allocated).1 ∧
      (s.acquireInner shardOf thread fromGlobal size fresh grown).2.allocated =
        (handle.syncCapacityAccounting s.allocated).2 ∧
      (s.acquireInner shardOf thread fromGlobal size fresh grown).2.handles = s.handles := by
  unfold PoolState.acquireInner
  simp only
  split
  · next buf cache hcache =>
    exact ⟨_, buf.clear.resize size grown, rfl, bytes_resize_clear buf size grown, rfl, rfl, rfl,
      rfl, rfl⟩
  · unfold arenaAcquire
    split
    · next buf stack hstack =>
      exact ⟨_, buf.clear.resize size grown, rfl, bytes_resize_clear buf size grown, rfl, rfl, rfl,
        rfl, rfl⟩
    · exact ⟨_, _, rfl, bytes_resize_clear (.withCapacity _ fresh) size grown, rfl, rfl, rfl, rfl,
        rfl⟩

/-- A drop takes the capacity of the handle off the counter. -/
theorem dropHandle_eq (s : PoolState) (thread : Nat) (handle : PooledBuf) :
    (s.dropHandle shardOf thread handle).handles = s.handles ∧
      (s.dropHandle shardOf thread handle).allocated =
        handle.buf.elim s.allocated fun _ => s.allocated.fetchSub handle.allocatedSize := by
  unfold PoolState.dropHandle PoolState.releaseToGlobal
  cases handle.buf with
  | none => exact ⟨rfl, rfl⟩
  | some buf =>
    simp only
    split_ifs <;> exact ⟨rfl, rfl⟩

theorem PoolInv.acquire (h : PoolInv s) {thread : Nat} {fromGlobal : Bool}
    {id size fresh grown : Nat} (hnew : s.handles.lookup id = none) {s' : PoolState}
    (hs' : s' = { (s.acquireInner shardOf thread fromGlobal size fresh grown).2 with
      handles := (s.acquireInner shardOf thread fromGlobal size fresh grown).2.handles.insert id
        (s.acquireInner shardOf thread fromGlobal size fresh grown).1 })
    (hlt : s'.liveCapacity < 2 ^ 64) : PoolInv s' := by
  obtain ⟨handle, buf, hbuf, hbytes, hrequested, hallocated, hhandle, hcounter, hhandles⟩ :=
    @acquireInner_eq shardOf s thread fromGlobal size fresh grown
  rw [hhandles, hhandle] at hs'
  -- the other handles have all of the capacity so far
  have hrest := liveCapacity_erase s id
  rw [hnew, Option.elim_none, Nat.add_zero] at hrest
  have hlive : s'.liveCapacity = s.liveCapacity +
      (handle.syncCapacityAccounting s.allocated).1.capacity := by
    rw [hrest, hs', ← liveCapacity_insert]
    rfl
  have hsize : handle.requestedSize = buf.bytes.length := by
    rw [hrequested, hbytes, List.length_replicate]
  have hholds : s.allocated.Holds (s.liveCapacity + handle.allocatedSize) := by
    rw [hallocated]
    exact h.counter
  rw [hlive] at hlt
  obtain ⟨hconsistent, hcounted⟩ := sync_consistent hbuf hsize hholds hlt
  constructor
  · intro id' handle' hlookup
    rw [hs', Table.lookup_insert_eq] at hlookup
    split at hlookup
    · rwa [← Option.some.inj hlookup]
    · exact h.consistent id' handle' hlookup
  · rw [hlive, hs']
    show AllocatedBytes.Holds (PoolState.allocated _) _
    rw [hcounter]
    exact hcounted

theorem PoolInv.use (h : PoolInv s) {id : Nat} {handle : PooledBuf}
    (hlive : s.handles.lookup id = some handle) (call : HandleCall)
    (hlt : (s.put id (call.run handle s.allocated)).liveCapacity < 2 ^ 64) :
    PoolInv (s.put id (call.run handle s.allocated)) := by
  have hrest := liveCapacity_erase s id
  rw [hlive, Option.elim_some] at hrest
  have hlive' : (s.put id (call.run handle s.allocated)).liveCapacity =
      Table.total PooledBuf.capacity (s.handles.erase id) +
        (call.run handle s.allocated).1.capacity := liveCapacity_insert s id _
  rw [hlive'] at hlt
  obtain ⟨hconsistent, hcounted⟩ :=
    (h.consistent id handle hlive).run (hrest ▸ h.counter) call hlt
  constructor
  · intro id' handle' hlookup
    rw [PoolState.put, Table.lookup_insert_eq] at hlookup
    split at hlookup
    · rwa [← Option.some.inj hlookup]
    · exact h.consistent id' handle' hlookup
  · rw [hlive']
    exact hcounted

theorem PoolInv.drop (h : PoolInv s) {thread id : Nat} {handle : PooledBuf}
    (hlive : s.handles.lookup id = some handle) {s' : PoolState}
    (hs' : s' = { s.dropHandle shardOf thread handle with
      handles := (s.dropHandle shardOf thread handle).handles.erase id }) : PoolInv s' := by
  obtain ⟨hhandles, hcounter⟩ := @dropHandle_eq shardOf s thread handle
  have hrest := liveCapacity_erase s id
  rw [hlive, Option.elim_some] at hrest
  have hlive' : s'.liveCapacity = Table.total PooledBuf.capacity (s.handles.erase id) := by
    rw [hs', hhandles]
    rfl
  have hconsistent := h.consistent id handle hlive
  constructor
  · intro id' handle' hlookup
    rw [hs', hhandles, Table.lookup_erase_eq] at hlookup
    split at hlookup
    · cases hlookup
    · exact h.consistent id' handle' hlookup
  · have hallocated : s'.allocated =
        handle.buf.elim s.allocated fun _ => s.allocated.fetchSub handle.allocatedSize := by
      rw [hs']
      exact hcounter
    have hholds := h.counter
    rw [hallocated, hlive']
    cases hbuf : handle.buf with
    | none =>
      have hzero : handle.capacity = 0 := by rw [PooledBuf.capacity, hbuf]; rfl
      rw [hrest, hzero, Nat.add_zero] at hholds
      exact hholds
    | some buf =>
      have hsub := hholds.fetchSub (show handle.allocatedSize ≤ s.liveCapacity by
        rw [hrest, hconsistent.counted]
        exact Nat.le_add_left _ _)
      rw [hrest, hconsistent.counted, Nat.add_sub_cancel] at hsub
      rw [Option.elim_some, hconsistent.counted]
      exact hsub

theorem PoolInv.step (h : PoolInv s) {call : PoolCall} {s' : PoolState}
    (hstep : (poolSystem shardOf).step s call s') : PoolInv s' := by
  obtain ⟨hcall, hlt⟩ := hstep
  cases hcall with
  | acquire hnew => exact h.acquire hnew rfl hlt
  | use hlive => exact h.use hlive _ hlt
  | drop hlive => exact h.drop hlive rfl

end runs

theorem PooledBuf.Consistent.asSlice {handle : PooledBuf} (h : handle.Consistent) :
    handle.asSlice = .ok (handle.buf.elim [] BytesMut.bytes) := by
  unfold PooledBuf.asSlice
  cases hbuf : handle.buf with
  | none => rfl
  | some buf =>
    simp only [Option.elim_some]
    rw [h.requested buf hbuf, range, if_pos ⟨Nat.zero_le _, Nat.le_refl _⟩]
    simp [slice]

theorem PoolInv.accounted {s : PoolState} (h : PoolInv s) : Accounted s where
  counter := h.counter.1
  no_underflow := h.counter.2
  slices := fun id handle hlookup => (h.consistent id handle hlookup).asSlice

/-- In every state of every run the buffers are accounted for, and every acquisition yields as many
    zeros as were asked for. -/
theorem pooled_buffers (shardOf : Nat → Fin 8) :
    (∀ tr s, (poolSystem shardOf).Exec tr s → Accounted s) ∧
      ∀ (s : PoolState) (thread : Nat) (fromGlobal : Bool) (size fresh grown : Nat),
        (s.acquireInner shardOf thread fromGlobal size fresh grown).1.asSlice =
          .ok (List.replicate size 0) := by
  constructor
  · intro tr s hexec
    refine PoolInv.accounted (System.Exec.invariant PoolInv ?_ ?_ hexec)
    · rintro _ rfl
      refine ⟨fun id handle hlookup => ?_, rfl, rfl⟩
      simp [PoolState.new] at hlookup
    · exact fun s call s' hs hstep => hs.step hstep
  · intro s thread fromGlobal size fresh grown
    obtain ⟨handle, buf, hbuf, hbytes, hrequested, -, hhandle, -, -⟩ :=
      @acquireInner_eq shardOf s thread fromGlobal size fresh grown
    rw [hhandle, PooledBuf.asSlice, syncCapacityAccounting_buf, hbuf,
      syncCapacityAccounting_requestedSize, hrequested]
    simp [range, slice, hbytes]

/-- The pool of a thread after its first acquisition, of three bytes. -/
def acquiredPool : PoolState :=
  let (handle, s) := PoolState.new.acquireInner (fun _ => 0) 1 false 3 4096 0
  { s with handles := s.handles.insert 0 handle }

def acquiredHandle : PooledBuf := (PoolState.new.acquireInner (fun _ => 0) 1 false 3 4096 0).1

/-- Two bytes are written. -/
def writtenPool : PoolState :=
  acquiredPool.put 0 ((HandleCall.extendFromSlice [7, 8] 0).run acquiredHandle
    acquiredPool.allocated)

def writtenHandle : PooledBuf :=
  ((HandleCall.extendFromSlice [7, 8] 0).run acquiredHandle acquiredPool.allocated).1

/-- The handle is dropped. -/
def recycledPool : PoolState :=
  let s := writtenPool.dropHandle (fun _ => 0) 1 writtenHandle
  { s with handles := s.handles.erase 0 }

/-- The next handle does not see what was written. -/
theorem recycled_buffer_zero :
    (∃ tr, (poolSystem fun _ => 0).Exec tr recycledPool) ∧ Accounted recycledPool ∧
      (recycledPool.tlsCache (1, .small)).map BytesMut.bytes = [[0, 0, 0, 7, 8]] ∧
      (recycledPool.acquireInner (fun _ => 0) 1 false 5 0 0).1.asSlice =
        .ok (List.replicate 5 0) := by
  have hacquire : (poolSystem fun _ => 0).step .new (.acquire 1 false 0 3 4096 0) acquiredPool :=
    ⟨.acquire rfl, by decide⟩
  have hwrite : (poolSystem fun _ => 0).step acquiredPool (.use 0 (.extendFromSlice [7, 8] 0))
      writtenPool := ⟨.use rfl, by decide⟩
  have hdrop : (poolSystem fun _ => 0).step writtenPool (.drop 1 0) recycledPool :=
    ⟨.drop rfl, by decide⟩
  have hexec := (((System.Exec.nil rfl).snoc hacquire).snoc hwrite).snoc hdrop
  exact ⟨⟨_, hexec⟩, (pooled_buffers _).1 _ _ hexec, by decide,
    (pooled_buffers _).2 recycledPool 1 false 5 0 0⟩

end Synvoid.Utils
