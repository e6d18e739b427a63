import Synvoid.Framework.BigEndian
import Synvoid.Framework.ByteSource

/-! # Message framing

    A message is sent as the length of its encoding, four bytes with the high
    one first, and the encoding. `read_message_sync` reads up to 4096 bytes at
    a time into a buffer that its caller keeps, and takes one frame off the
    front when the frame is complete. Bytes behind the frame stay in the buffer
    for the next call.

    Whatever the pieces in which a stream arrives, repeated calls return the
    messages that were written to it (`messages_reassembled`). The invariant is
    that the buffer and the bytes still to come are together the frames of the
    messages not yet returned (`Pending`).
-/

namespace Synvoid.Ipc

open Synvoid.Framework

/-! ## Section 1: Writing -/

def maxMessageSize : Nat := 1024 * 1024

/-- `serialization::serialize` and `deserialize` at a type. -/
structure Codec (T : Type) where
  serialize : T → Except IoError Bytes
  deserialize : Bytes → Except IoError T

/-- What is serialized is read back. -/
def Codec.RoundTrips {T : Type} (codec : Codec T) : Prop :=
  ∀ msg data, codec.serialize msg = .ok data → codec.deserialize data = .ok msg

def messageTooLarge : IoError := ⟨.invalidData, "message too large"⟩

def connectionClosed : IoError := ⟨.unexpectedEof, "connection closed"⟩

section framing

variable {T : Type} (codec : Codec T)

/-- Appends a message to what was written so far. -/
def writeMessageSync (writer : Bytes) (msg : T) : Except IoError Bytes :=
  match codec.serialize msg with
  | .error e => .error e
  | .ok data =>
      if data.length > maxMessageSize then .error messageTooLarge
      else .ok (writer ++ beBytes 4 (data.length % 4294967296) ++ data)

/-- Messages written back to back. -/
def writeMessages : Bytes → List T → Except IoError Bytes
  | writer, [] => .ok writer
  | writer, msg :: msgs =>
      match writeMessageSync codec writer msg with
      | .error e => .error e
      | .ok writer => writeMessages writer msgs

/-! ## Section 2: Reading -/

/-- A stream and the buffer of its reader. -/
structure Reader where
  source : Source
  buffer : Bytes

namespace Reader

/-- One read into the buffer; `false` if the reader would block. -/
def readSome (r : Reader) : Except IoError Bool × Reader :=
  match r.source.read 4095 with
  | (.ok [], source) => (.error connectionClosed, { r with source })
  | (.ok temp, source) => (.ok true, ⟨source, r.buffer ++ temp⟩)
  | (.error e, source) =>
      if e.kind = .wouldBlock then (.ok false, { r with source }) else (.error e, { r with source })

theorem size_readSome_lt {r r' : Reader} (h : r.readSome = (.ok true, r')) :
    r'.source.size < r.source.size := by
  have hne : r.source ≠ [] := by
    intro hnil
    simp [readSome, hnil, Source.read] at h
  have hlt := Source.size_read_lt 4095 hne
  unfold readSome at h
  split at h
  · simp at h
  · next hread =>
    obtain rfl := congrArg Prod.snd h
    rw [hread] at hlt
    exact hlt
  · split at h <;> simp at h

/-- The loop that waits for the whole frame. -/
def readBody (totalNeeded : Nat) (r : Reader) : Except IoError Bool × Reader :=
  match h : r.readSome with
  | (.ok true, r') =>
      have := size_readSome_lt h
      if r'.buffer.length ≥ totalNeeded then (.ok true, r') else readBody totalNeeded r'
  | result => result
termination_by r.source.size

/-- The part of `read_message_sync` that reads: the length of the frame that
    the buffer then starts with, if it is there. -/
def receive (r : Reader) : Except IoError (Option Nat) × Reader :=
  match if r.buffer.length < 4 then r.readSome else (.ok true, r) with
  | (.error e, r) => (.error e, r)
  | (.ok false, r) => (.ok none, r)
  | (.ok true, r) =>
      if r.buffer.length < 4 then (.ok none, r)
      else
        let len := beValue (r.buffer.take 4)
        if len > maxMessageSize then (.error messageTooLarge, r)
        else
          let totalNeeded := 4 + len
          match if r.buffer.length < totalNeeded then r.readBody totalNeeded else (.ok true, r) with
          | (.error e, r) => (.error e, r)
          | (.ok false, r) => (.ok none, r)
          | (.ok true, r) =>
              if r.buffer.length < totalNeeded then (.ok none, r) else (.ok (some totalNeeded), r)

end Reader

def readMessageSync (r : Reader) : Except IoError (Option T) × Reader :=
  match r.receive with
  | (.error e, r) => (.error e, r)
  | (.ok none, r) => (.ok none, r)
  | (.ok (some totalNeeded), r) =>
      let data := (r.buffer.take totalNeeded).drop 4
      let r := { r with buffer := r.buffer.drop totalNeeded }
      match codec.deserialize data with
      | .error e => (.error e, r)
      | .ok msg => (.ok (some msg), r)

/-- Repeated calls, with their results. -/
def readCalls : Nat → Reader → List (Except IoError (Option T)) × Reader
  | 0, r => ([], r)
  | n + 1, r =>
      let (result, r) := readMessageSync codec r
      let (results, r) := readCalls n r
      (result :: results, r)

/-- The messages among the results of calls. -/
def received (results : List (Except IoError (Option T))) : List T :=
  results.filterMap fun result => result.toOption.join

/-! ## Section 3: What was written -/

/-- The frames of messages, one behind the other. -/
inductive Frames : List T → Bytes → Prop where
  | nil : Frames [] []
  | cons {msg : T} {msgs : List T} {data rest : Bytes} :
      codec.serialize msg = .ok data → data.length ≤ maxMessageSize → Frames msgs rest →
      Frames (msg :: msgs) (beBytes 4 data.length ++ data ++ rest)

variable {codec}

theorem writeMessages_of_frames {msgs : List T} {stream : Bytes} (h : Frames codec msgs stream)
    (writer : Bytes) : writeMessages codec writer msgs = .ok (writer ++ stream) := by
  induction h generalizing writer with
  | nil => simp [writeMessages]
  | cons hdata hsize hframes ih =>
    have hmod : ∀ n ≤ maxMessageSize, n % 4294967296 = n := fun n hn =>
      Nat.mod_eq_of_lt (Nat.lt_of_le_of_lt hn (by decide))
    rw [writeMessages, writeMessageSync, hdata]
    simp only [if_neg (Nat.not_lt.mpr hsize), hmod _ hsize]
    rw [ih]
    simp

/-- Messages that fit can be written. -/
theorem exists_frames {msgs : List T}
    (h : ∀ msg ∈ msgs, ∃ data, codec.serialize msg = .ok data ∧ data.length ≤ maxMessageSize) :
    ∃ stream, Frames codec msgs stream := by
  induction msgs with
  | nil => exact ⟨[], .nil⟩
  | cons msg msgs ih =>
    obtain ⟨data, hdata, hsize⟩ := h msg (List.mem_cons_self ..)
    obtain ⟨rest, hrest⟩ := ih fun m hm => h m (List.mem_cons_of_mem _ hm)
    exact ⟨_, .cons hdata hsize hrest⟩

/-! ## Section 4: One read -/

namespace Reader

/-- A reader that fails only because it would block. -/
abbrev MayBlock (r : Reader) : Prop := r.source.FailsOnly (· = .wouldBlock)

/-- Bytes of the stream have moved to the buffer, or none. -/
structure Follows (r r' : Reader) : Prop where
  total : r'.buffer ++ r'.source.bytes = r.buffer ++ r.source.bytes
  mayBlock : r'.MayBlock
  size_le : r'.source.size ≤ r.source.size
  length_le : r.buffer.length ≤ r'.buffer.length

theorem Follows.refl {r : Reader} (h : r.MayBlock) : r.Follows r :=
  ⟨rfl, h, Nat.le_refl _, Nat.le_refl _⟩

theorem Follows.trans {r r' r'' : Reader} (h : r.Follows r') (h' : r'.Follows r'') :
    r.Follows r'' :=
  ⟨h'.total.trans h.total, h'.mayBlock, h'.size_le.trans h.size_le, h.length_le.trans h'.length_le⟩

/-- The bytes at the front of the buffer are those of the stream. -/
theorem take_buffer {r : Reader} {total : Bytes} (h : r.buffer ++ r.source.bytes = total) {n : Nat}
    (hn : n ≤ r.buffer.length) : r.buffer.take n = total.take n := by
  rw [← h, List.take_append_of_le_length hn]

/-- A single read comes to the end of the stream, would block, or brings up to
    4096 bytes. -/
theorem readSome_cases {r : Reader} (h : r.MayBlock) :
    (r.source = [] ∧ r.readSome = (.error connectionClosed, r)) ∨
    (∃ r', r.readSome = (.ok false, r') ∧ r.Follows r' ∧ r'.source.size < r.source.size ∧
      r'.buffer = r.buffer) ∨
    (∃ r', r.readSome = (.ok true, r') ∧ r.Follows r' ∧ r'.source.size < r.source.size ∧
      r.buffer.length < r'.buffer.length ∧ r'.buffer.length ≤ r.buffer.length + 4096) := by
  obtain ⟨source, buffer⟩ := r
  match source, h with
  | [], _ => exact Or.inl ⟨rfl, rfl⟩
  | .err e :: source, h =>
    right; left
    have hkind : e.kind = .wouldBlock := h e (List.mem_cons_self ..)
    refine ⟨⟨source, buffer⟩, ?_, ⟨rfl, h.cons, ?_, Nat.le_refl _⟩, ?_, rfl⟩
    · simp [readSome, Source.read, hkind]
    · simp [Source.size]
    · simp [Source.size]
  | .data first rest :: source, h =>
    right; right
    have hread : Source.read 4095 (.data first rest :: source) =
        (.ok (first :: rest.take 4095), Source.ofBytes (rest.drop 4095) ++ source) := rfl
    have hsome : readSome ⟨.data first rest :: source, buffer⟩ =
        (.ok true, ⟨Source.ofBytes (rest.drop 4095) ++ source,
          buffer ++ first :: rest.take 4095⟩) := by
      rw [readSome, hread]
    obtain ⟨hbytes, hlength⟩ := Source.bytes_read_ok hread
    have hsize := Source.size_read_lt 4095 (List.cons_ne_nil (ReadEvent.data first rest) source)
    rw [hread] at hsize
    refine ⟨_, hsome, ⟨?_, h.read 4095, Nat.le_of_lt hsize, ?_⟩, hsize, ?_, ?_⟩
    · rw [hbytes, List.append_assoc]
    · simp
    · simp
    · rw [List.length_append]
      exact Nat.add_le_add_left hlength _

/-- The loop ends with the whole frame, or because the reader would block. -/
theorem readBody_spec {totalNeeded : Nat} {r : Reader} (h : r.MayBlock)
    (hneeded : totalNeeded ≤ (r.buffer ++ r.source.bytes).length)
    (hmore : r.buffer.length < totalNeeded) :
    ∃ ok r', r.readBody totalNeeded = (.ok ok, r') ∧ r.Follows r' ∧
      r'.source.size < r.source.size ∧ r'.buffer.length < totalNeeded + 4096 ∧
      (ok = true → totalNeeded ≤ r'.buffer.length) := by
  induction hk : r.source.size using Nat.strong_induction_on generalizing r with
  | _ k ih =>
    subst hk
    rcases readSome_cases h with ⟨hnil, -⟩ | ⟨r', hsome, hfollows, hsize, hbuffer⟩ |
      ⟨r', hsome, hfollows, hsize, -, hlength⟩
    -- the frame is not complete, so the stream cannot end here
    · rw [hnil, Source.bytes_nil, List.append_nil] at hneeded
      omega
    · refine ⟨false, r', ?_, hfollows, hsize, ?_, fun h => by cases h⟩
      · rw [readBody]
        split
        · next hother => simp [hsome] at hother
        · exact hsome
      · rw [hbuffer]
        omega
    · have hbody : r.readBody totalNeeded =
          if r'.buffer.length ≥ totalNeeded then (.ok true, r') else r'.readBody totalNeeded := by
        rw [readBody]
        split
        · next hother =>
          obtain rfl : r' = _ := by simpa [hsome] using hother
          rfl
        · next hother => exact absurd hsome (hother r')
      rw [hbody]
      by_cases hdone : r'.buffer.length ≥ totalNeeded
      · rw [if_pos hdone]
        exact ⟨true, r', rfl, hfollows, hsize, by omega, fun _ => hdone⟩
      · rw [if_neg hdone]
        obtain ⟨ok, r'', hloop, hfollows', hsize', hbound, hready⟩ :=
          ih _ hsize hfollows.mayBlock (by rwa [hfollows.total]) (by omega) rfl
        exact ⟨ok, r'', hloop, hfollows.trans hfollows', hsize'.trans hsize, hbound, hready⟩

/-- More than the buffer ever holds. -/
def bufferBound : Nat := 4 + maxMessageSize + 4096

/-- The prefix is read first, if it is not there. -/
theorem readPrefix_cases {r : Reader} (h : r.MayBlock) (hbound : r.buffer.length < bufferBound) :
    (r.source = [] ∧ r.buffer.length < 4 ∧
      (if r.buffer.length < 4 then r.readSome else (.ok true, r)) = (.error connectionClosed, r)) ∨
    (∃ r', (if r.buffer.length < 4 then r.readSome else (.ok true, r)) = (.ok false, r') ∧
      r.Follows r' ∧ r'.source.size < r.source.size ∧ r'.buffer.length < bufferBound) ∨
    (∃ r', (if r.buffer.length < 4 then r.readSome else (.ok true, r)) = (.ok true, r') ∧
      r.Follows r' ∧ (r'.buffer.length < 4 → r'.source.size < r.source.size) ∧
      0 < r'.buffer.length ∧ r'.buffer.length < bufferBound) := by
  by_cases hshort : r.buffer.length < 4
  · rw [if_pos hshort]
    rcases readSome_cases h with ⟨hnil, hsome⟩ | ⟨r', hsome, hfollows, hsize, hbuffer⟩ |
      ⟨r', hsome, hfollows, hsize, hmore, hlength⟩
    · exact Or.inl ⟨hnil, hshort, hsome⟩
    · exact Or.inr (Or.inl ⟨r', hsome, hfollows, hsize, by rwa [hbuffer]⟩)
    · refine Or.inr (Or.inr ⟨r', hsome, hfollows, fun _ => hsize, by omega, ?_⟩)
      unfold bufferBound
      omega
  · rw [if_neg hshort]
    exact Or.inr (Or.inr ⟨r, rfl, .refl h, fun hlt => absurd hlt hshort, by omega, hbound⟩)

/-- After the last message the buffer stays empty. -/
theorem receive_of_empty {r : Reader} (h : r.MayBlock) (hbuffer : r.buffer = [])
    (hbytes : r.source.bytes = []) :
    (r.source = [] ∧ r.receive = (.error connectionClosed, r)) ∨
      ∃ r', r.receive = (.ok none, r') ∧ r.Follows r' ∧ r'.source.size < r.source.size ∧
        r'.buffer = [] := by
  rcases readPrefix_cases h (by rw [hbuffer]; decide) with ⟨hnil, -, hfront⟩ |
    ⟨r', hfront, hfollows, hsize, -⟩ | ⟨r', hfront, hfollows, -, hpos, -⟩
  · left
    refine ⟨hnil, ?_⟩
    rw [receive, hfront]
  · have htotal := hfollows.total
    rw [hbuffer, hbytes, List.append_nil] at htotal
    right
    refine ⟨r', ?_, hfollows, hsize, (List.append_eq_nil_iff.mp htotal).1⟩
    rw [receive, hfront]
  · have htotal := hfollows.total
    rw [hbuffer, hbytes, List.append_nil] at htotal
    rw [(List.append_eq_nil_iff.mp htotal).1] at hpos
    exact absurd hpos (by decide)

/-- Before a message the frame becomes complete, or the reader would block. -/
theorem receive_of_frame {r : Reader} {data rest : Bytes} (h : r.MayBlock)
    (hbound : r.buffer.length < bufferBound) (hsize : data.length ≤ maxMessageSize)
    (htotal : r.buffer ++ r.source.bytes = beBytes 4 data.length ++ data ++ rest) :
    ∃ r', r.Follows r' ∧ r'.buffer.length < bufferBound ∧
      (r.receive = (.ok none, r') ∧ r'.source.size < r.source.size ∨
        r.receive = (.ok (some (4 + data.length)), r') ∧ 4 + data.length ≤ r'.buffer.length) := by
  have hlength : 4 + data.length ≤ (r.buffer ++ r.source.bytes).length := by
    rw [htotal]
    simp
  rcases readPrefix_cases h hbound with ⟨hnil, hshort, -⟩ | ⟨r', hfront, hfollows, hless, hbound'⟩ |
    ⟨r₁, hfront, hfollows₁, hless, -, hbound₁⟩
  · rw [hnil, Source.bytes_nil, List.append_nil] at hlength
    omega
  · refine ⟨r', hfollows, hbound', Or.inl ⟨?_, hless⟩⟩
    rw [receive, hfront]
  · by_cases hshort : r₁.buffer.length < 4
    · refine ⟨r₁, hfollows₁, hbound₁, Or.inl ⟨?_, hless hshort⟩⟩
      rw [receive, hfront]
      simp only [if_pos hshort]
    · have hlen : beValue (r₁.buffer.take 4) = data.length := by
        have hfront : (beBytes 4 data.length ++ data ++ rest).take 4 = beBytes 4 data.length := by
          rw [List.append_assoc, List.take_append_of_le_length (by simp),
            List.take_of_length_le (by simp)]
        rw [take_buffer (hfollows₁.total.trans htotal) (by omega), hfront,
          beValue_beBytes (Nat.lt_of_le_of_lt hsize (by decide))]
      have hreceive : r.receive =
          match if r₁.buffer.length < 4 + data.length then r₁.readBody (4 + data.length)
            else (.ok true, r₁) with
          | (.error e, r) => (.error e, r)
          | (.ok false, r) => (.ok none, r)
          | (.ok true, r) =>
              if r.buffer.length < 4 + data.length then (.ok none, r)
              else (.ok (some (4 + data.length)), r) := by
        rw [receive, hfront]
        simp only [if_neg hshort, hlen, if_neg (Nat.not_lt.mpr hsize)]
      by_cases hmore : r₁.buffer.length < 4 + data.length
      · rw [← hfollows₁.total] at hlength
        obtain ⟨ok, r₂, hbody, hfollows₂, hless₂, hbound₂, hready⟩ :=
          readBody_spec hfollows₁.mayBlock hlength hmore
        rw [if_pos hmore, hbody] at hreceive
        refine ⟨r₂, hfollows₁.trans hfollows₂, ?_, ?_⟩
        · unfold bufferBound
          omega
        · cases ok with
          | false => exact Or.inl ⟨hreceive, Nat.lt_of_lt_of_le hless₂ hfollows₁.size_le⟩
          | true =>
            have hdone := hready rfl
            simp only [if_neg (Nat.not_lt.mpr hdone)] at hreceive
            exact Or.inr ⟨hreceive, hdone⟩
      · rw [if_neg hmore] at hreceive
        simp only [if_neg hmore] at hreceive
        exact ⟨r₁, hfollows₁, hbound₁, Or.inr ⟨hreceive, Nat.le_of_not_lt hmore⟩⟩

end Reader

/-! ## Section 5: Whole streams -/

/-- The buffer and the bytes still to come are the frames of the messages that
    were not returned yet. -/
structure Pending (codec : Codec T) (r : Reader) (rest : List T) : Prop where
  frames : Frames codec rest (r.buffer ++ r.source.bytes)
  mayBlock : r.MayBlock
  bound : r.buffer.length < Reader.bufferBound

/-- **One call** returns the next message, would block, or comes to the end of
    the stream behind the last message. -/
theorem readMessageSync_cases (hround : codec.RoundTrips) {r : Reader} {rest : List T}
    (h : Pending codec r rest) :
    r.receive.2.buffer.length < Reader.bufferBound ∧
    ((∃ msg rest' r', readMessageSync codec r = (.ok (some msg), r') ∧ rest = msg :: rest' ∧
        Pending codec r' rest' ∧ r'.source.size ≤ r.source.size) ∨
      (∃ r', readMessageSync codec r = (.ok none, r') ∧ Pending codec r' rest ∧
        r'.source.size < r.source.size) ∨
      (∃ e, readMessageSync codec r = (.error e, r) ∧ rest = [] ∧ r.source = [])) := by
  obtain ⟨hframes, hmay, hbound⟩ := h
  generalize htotal : r.buffer ++ r.source.bytes = total at hframes
  cases hframes with
  | nil =>
    obtain ⟨hbuffer, hbytes⟩ := List.append_eq_nil_iff.mp htotal
    rcases Reader.receive_of_empty hmay hbuffer hbytes with ⟨hnil, hreceive⟩ |
      ⟨r', hreceive, hfollows, hless, hbuffer'⟩
    · refine ⟨by rwa [hreceive], Or.inr (Or.inr ⟨connectionClosed, ?_, rfl, hnil⟩)⟩
      rw [readMessageSync, hreceive]
    · have hbound' : r'.buffer.length < Reader.bufferBound := by
        rw [hbuffer', ← hbuffer]
        exact hbound
      refine ⟨by rwa [hreceive], Or.inr (Or.inl ⟨r', ?_, ⟨?_, hfollows.mayBlock, hbound'⟩, hless⟩)⟩
      · rw [readMessageSync, hreceive]
      · rw [hfollows.total, htotal]
        exact .nil
  | @cons msg rest data more hdata hsize hmore =>
    obtain ⟨r', hfollows, hbound', hcase⟩ := Reader.receive_of_frame hmay hbound hsize htotal
    have htotal' := hfollows.total.trans htotal
    rcases hcase with ⟨hreceive, hless⟩ | ⟨hreceive, hdone⟩
    · refine ⟨by rwa [hreceive], Or.inr (Or.inl ⟨r', ?_, ⟨?_, hfollows.mayBlock, hbound'⟩, hless⟩)⟩
      · rw [readMessageSync, hreceive]
      · rw [htotal']
        exact .cons hdata hsize hmore
    · have hfront : (beBytes 4 data.length ++ data ++ more).take (4 + data.length) =
          beBytes 4 data.length ++ data := by
        rw [List.take_append_of_le_length (by simp), List.take_of_length_le (by simp)]
      have hback : (beBytes 4 data.length ++ data ++ more).drop (4 + data.length) = more := by
        rw [List.drop_append_of_le_length (by simp), List.drop_of_length_le (by simp),
          List.nil_append]
      have hpayload : (r'.buffer.take (4 + data.length)).drop 4 = data := by
        rw [Reader.take_buffer htotal' hdone, hfront, List.drop_append_of_le_length (by simp),
          List.drop_of_length_le (by simp), List.nil_append]
      refine ⟨by rwa [hreceive], Or.inl ⟨msg, rest,
        ⟨r'.source, r'.buffer.drop (4 + data.length)⟩, ?_, rfl, ⟨?_, hfollows.mayBlock, ?_⟩,
        hfollows.size_le⟩⟩
      · rw [readMessageSync, hreceive]
        simp only [hpayload, hround msg data hdata]
      · rw [← List.drop_append_of_le_length hdone, htotal', hback]
        exact hmore
      · rw [List.length_drop]
        omega

theorem readCalls_succ (n : Nat) (r : Reader) :
    readCalls codec (n + 1) r =
      ((readMessageSync codec r).1 :: (readCalls codec n (readMessageSync codec r).2).1,
        (readCalls codec n (readMessageSync codec r).2).2) := rfl

/-- After any number of calls the messages are those returned and those still
    pending, and errors come behind the last message only. -/
theorem readCalls_pending (hround : codec.RoundTrips) (n : Nat) {r : Reader} {rest : List T}
    (h : Pending codec r rest) :
    ∃ rest', Pending codec (readCalls codec n r).2 rest' ∧
      rest = received (readCalls codec n r).1 ++ rest' ∧
      ∀ e, .error e ∈ (readCalls codec n r).1 → rest' = [] := by
  induction n generalizing r rest with
  | zero => exact ⟨rest, h, rfl, fun e he => by cases he⟩
  | succ n ih =>
    rcases (readMessageSync_cases hround h).2 with ⟨msg, rest₁, r₁, hcall, rfl, hpending, -⟩ |
      ⟨r₁, hcall, hpending, -⟩ | ⟨e, hcall, rfl, -⟩
    · obtain ⟨rest', hpending', hsplit, herror⟩ := ih hpending
      rw [readCalls_succ, hcall]
      refine ⟨rest', hpending', ?_, fun e he => herror e (by simpa using he)⟩
      rw [hsplit]
      rfl
    · obtain ⟨rest', hpending', hsplit, herror⟩ := ih hpending
      rw [readCalls_succ, hcall]
      exact ⟨rest', hpending', hsplit, fun e he => herror e (by simpa using he)⟩
    · obtain ⟨rest', hpending', hsplit, -⟩ := ih h
      rw [readCalls_succ, hcall]
      exact ⟨rest', hpending', hsplit, fun _ _ => (List.append_eq_nil_iff.mp hsplit.symm).2⟩

/-- Every call returns a message or uses up some of the stream, until all
    messages are returned. -/
theorem received_of_le (hround : codec.RoundTrips) {n : Nat} {r : Reader} {rest : List T}
    (h : Pending codec r rest) (hn : r.source.size + rest.length ≤ n) :
    received (readCalls codec n r).1 = rest := by
  induction n generalizing r rest with
  | zero =>
    obtain rfl : rest = [] := List.length_eq_zero_iff.mp (by omega)
    rfl
  | succ n ih =>
    rcases (readMessageSync_cases hround h).2 with ⟨msg, rest₁, r₁, hcall, rfl, hpending, hsize⟩ |
      ⟨r₁, hcall, hpending, hless⟩ | ⟨e, hcall, rfl, -⟩
    · rw [List.length_cons] at hn
      have hrest := ih hpending (by omega)
      rw [readCalls_succ, hcall]
      exact congrArg (msg :: ·) hrest
    · have hrest := ih hpending (by omega)
      rw [readCalls_succ, hcall]
      exact hrest
    · obtain ⟨rest', -, hsplit, -⟩ := readCalls_pending hround (n + 1) h
      exact (List.append_eq_nil_iff.mp hsplit.symm).1

/-- **Reassembly.** Messages that fit are written, and however the stream is
    delivered, calls with one buffer return them in order. At any time the
    messages not yet returned are in the buffer and the rest of the stream,
    byte for byte, and the buffer stays within its bound, also while it is
    filled. -/
theorem messages_reassembled (codec : Codec T) (hround : codec.RoundTrips) (msgs : List T)
    (hfits : ∀ msg ∈ msgs,
      ∃ data, codec.serialize msg = .ok data ∧ data.length ≤ maxMessageSize) :
    ∃ stream, writeMessages codec [] msgs = .ok stream ∧
      ∀ source : Source, source.FailsOnly (· = .wouldBlock) → source.bytes = stream →
        (∀ n results r, readCalls codec n ⟨source, []⟩ = (results, r) →
          ∃ rest, msgs = received results ++ rest ∧
            writeMessages codec [] rest = .ok (r.buffer ++ r.source.bytes) ∧
            (∀ e, .error e ∈ results → rest = []) ∧
            r.buffer.length < 4 + maxMessageSize + 4096 ∧
            r.receive.2.buffer.length < 4 + maxMessageSize + 4096) ∧
        ∃ enough, ∀ n ≥ enough, received (readCalls codec n ⟨source, []⟩).1 = msgs := by
  obtain ⟨stream, hframes⟩ := exists_frames hfits
  refine ⟨stream, writeMessages_of_frames hframes [], ?_⟩
  intro source hmay hbytes
  have hstart : Pending codec ⟨source, []⟩ msgs := by
    refine ⟨?_, hmay, by show 0 < Reader.bufferBound; decide⟩
    rw [List.nil_append, hbytes]
    exact hframes
  refine ⟨?_, source.size + msgs.length, fun n hn => received_of_le hround hstart hn⟩
  intro n results r hcalls
  obtain ⟨rest, hpending, hsplit, herror⟩ := readCalls_pending hround n hstart
  rw [hcalls] at hpending hsplit herror
  exact ⟨rest, hsplit, writeMessages_of_frames hpending.frames [], herror, hpending.bound,
    (readMessageSync_cases hround hpending).1⟩

end framing

/-- Bytes that stand for themselves. -/
def bytesCodec : Codec Bytes := ⟨.ok, .ok⟩

/-- Two messages, the first one empty. -/
theorem two_messages_reassembled :
    ∃ stream, writeMessages bytesCodec [] [[], [7, 8]] = .ok stream ∧
      ∃ enough, ∀ n ≥ enough,
        received (readCalls bytesCodec n ⟨stream.map (.data · []), []⟩).1 = [[], [7, 8]] := by
  have hround : bytesCodec.RoundTrips := by
    intro msg data h
    exact congrArg Except.ok (Except.ok.inj h).symm
  obtain ⟨stream, hwrite, hread⟩ := messages_reassembled bytesCodec hround [[], [7, 8]] (by
    intro msg hmsg
    refine ⟨msg, rfl, ?_⟩
    rcases List.mem_pair.mp hmsg with rfl | rfl <;> decide)
  obtain rfl : stream = [0, 0, 0, 0, 0, 0, 0, 2, 7, 8] := by
    have hbytes : writeMessages bytesCodec [] [[], [7, 8]] =
        .ok [0, 0, 0, 0, 0, 0, 0, 2, 7, 8] := by decide
    exact Except.ok.inj (hwrite.symm.trans hbytes)
  have hclean : Source.FailsOnly (· = .wouldBlock)
      ([0, 0, 0, 0, 0, 0, 0, 2, 7, 8].map (ReadEvent.data · [])) := by
    intro e he
    simp at he
  exact ⟨_, hwrite, (hread _ hclean (by decide)).2⟩

end Synvoid.Ipc
