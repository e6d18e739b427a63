import Synvoid.Framework.DnsMessage
import Synvoid.Dns.UpdateBounds

/-! # The records of an update message

    `DynamicUpdate::parse` against the layout of RFC 1035: a zone, and records
    one behind the other (`UpdateAt`), where owner names may end in a pointer to
    an earlier name.

    The parser takes the end of the labels it read last for the end of a name.
    For a name that is written out this is right, and then the records are read
    as they stand there (`parse_of_written`). Behind a pointer it is the end of
    the name that the pointer leads to, which is before the pointer
    (`end_lt_of_pointer`): type, class, TTL and RDATA are read from there, and so
    are the records that follow.
-/

namespace Synvoid.Dns

open Synvoid.Framework

/-! ## Section 1: Layout -/

/-- A name whose pointers lead to earlier names: what is written of the target ends before the
    pointer. -/
inductive OwnerAt (m : Bytes) : Nat → List Bytes → Nat → Prop where
  | root {pos : Nat} (hlt : pos < m.length) (hzero : byteAt m pos = 0) : OwnerAt m pos [] (pos + 1)
  | label {pos stop : Nat} {ls : List Bytes} (hlt : pos < m.length)
      (hpos : 1 ≤ (byteAt m pos).toNat) (hle : (byteAt m pos).toNat ≤ 63)
      (hrest : OwnerAt m (pos + 1 + (byteAt m pos).toNat) ls stop) :
      OwnerAt m pos (slice m (pos + 1) (pos + 1 + (byteAt m pos).toNat) :: ls) stop
  | pointer {pos stop : Nat} {ls : List Bytes} (hlt : pos + 1 < m.length)
      (hpointer : 192 ≤ (byteAt m pos).toNat)
      (htarget : OwnerAt m (nameOffset (byteAt m pos) (byteAt m (pos + 1))) ls stop)
      (hearlier : stop ≤ pos) : OwnerAt m pos ls (pos + 2)

/-- A name without a pointer. -/
inductive WrittenAt (m : Bytes) : Nat → List Bytes → Nat → Prop where
  | root {pos : Nat} (hlt : pos < m.length) (hzero : byteAt m pos = 0) :
      WrittenAt m pos [] (pos + 1)
  | label {pos stop : Nat} {ls : List Bytes} (hlt : pos < m.length)
      (hpos : 1 ≤ (byteAt m pos).toNat) (hle : (byteAt m pos).toNat ≤ 63)
      (hrest : WrittenAt m (pos + 1 + (byteAt m pos).toNat) ls stop) :
      WrittenAt m pos (slice m (pos + 1) (pos + 1 + (byteAt m pos).toNat) :: ls) stop

/-- The record at a position, with its name by `Name`. -/
def RecordBy (m : Bytes) (Name : Nat → List Bytes → Nat → Prop) (pos : Nat) (record : DnsRecord) :
    Prop :=
  ∃ nameEnd, Name pos record.owner nameEnd ∧ record.rrType = u16At m nameEnd ∧
    record.rrClass = u16At m (nameEnd + 2) ∧ record.ttl = u32At m (nameEnd + 4) ∧
    record.start = nameEnd + 10 ∧
    record.stop = nameEnd + 10 + (u16At m (nameEnd + 8)).toNat ∧ record.stop ≤ m.length

/-- Records one behind the other. -/
inductive RecordRun (m : Bytes) (Name : Nat → List Bytes → Nat → Prop) :
    Nat → List DnsRecord → Nat → Prop where
  | nil {pos : Nat} : RecordRun m Name pos [] pos
  | cons {pos stop : Nat} {record : DnsRecord} {records : List DnsRecord}
      (hrecord : RecordBy m Name pos record) (hrest : RecordRun m Name record.stop records stop) :
      RecordRun m Name pos (record :: records) stop

/-- The sections of an update message. -/
structure UpdateSections where
  zoneName : List Bytes
  zoneClass : UInt16
  prerequisites : List DnsRecord
  updates : List DnsRecord
  additional : List DnsRecord

/-- The message has these sections and nothing else, with names by `Name`. -/
def SectionsAt (m : Bytes) (Name : Nat → List Bytes → Nat → Prop) (s : UpdateSections) : Prop :=
  12 ≤ m.length ∧ (QueryFlags.fromU16 (u16At m 2)).opcode = opcodeUpdate ∧
    (u16At m 4).toNat = 1 ∧ s.prerequisites.length = (u16At m 6).toNat ∧
    s.updates.length = (u16At m 8).toNat ∧ s.additional.length = (u16At m 10).toNat ∧
    ∃ nameEnd updateStart additionalStart, Name 12 s.zoneName nameEnd ∧
      nameEnd + 4 ≤ m.length ∧ s.zoneClass = u16At m (nameEnd + 2) ∧
      RecordRun m Name (nameEnd + 4) s.prerequisites updateStart ∧
      RecordRun m Name updateStart s.updates additionalStart ∧
      RecordRun m Name additionalStart s.additional m.length

/-- A well-formed update message. -/
def UpdateAt (m : Bytes) (s : UpdateSections) : Prop := SectionsAt m (OwnerAt m) s

/-- None of its names has a pointer, and the records behind the prerequisites are counted by
    16 bits. -/
def Uncompressed (m : Bytes) (s : UpdateSections) : Prop :=
  SectionsAt m (WrittenAt m) s ∧ s.updates.length + s.additional.length < 65536

/-- The text of a name. -/
def nameText (ls : List Bytes) : Str := ['.'].intercalate (ls.map fromUtf8Lossy)

/-- What `parse` should return. -/
def UpdateSections.parsed (m : Bytes) (s : UpdateSections) : DynamicUpdate where
  zone := some ⟨nameText s.zoneName, s.zoneClass⟩
  prerequisites := s.prerequisites.map fun r =>
    ⟨nameText r.owner, r.rrType, slice m r.start r.stop, conditionOfClass r.rrClass⟩
  updates := (s.updates ++ s.additional).map fun r =>
    ⟨nameText r.owner, r.rrType, r.rrClass, r.ttl.toNat, slice m r.start r.stop⟩

/-! ## Section 2: Names -/

section names
variable {m : Bytes} {pos stop : Nat} {ls : List Bytes}

theorem isPointer_ofNat : ∀ n < 256, isPointer (UInt8.ofNat n) = true ↔ 192 ≤ n := by
  decide +kernel

theorem isPointer_iff {b : UInt8} : isPointer b = true ↔ 192 ≤ b.toNat := by
  have h := isPointer_ofNat b.toNat b.toNat_lt
  rwa [UInt8.ofNat_toNat] at h

theorem pointerOffset_eq {hi lo : UInt8} (h : 192 ≤ hi.toNat) :
    pointerOffset hi lo = nameOffset hi lo := by
  have hlt := hi.toNat_lt
  unfold pointerOffset nameOffset
  omega

theorem WrittenAt.pos_lt (h : WrittenAt m pos ls stop) : pos + ls.length < stop := by
  induction h with
  | root => exact Nat.lt_succ_self _
  | label hlt hpos hle hrest ih =>
    rw [List.length_cons]
    omega

theorem WrittenAt.stop_le (h : WrittenAt m pos ls stop) : stop ≤ m.length := by
  induction h with
  | root hlt _ => exact hlt
  | label _ _ _ _ ih => exact ih

theorem WrittenAt.ownerAt (h : WrittenAt m pos ls stop) : OwnerAt m pos ls stop := by
  induction h with
  | root hlt hzero => exact .root hlt hzero
  | label hlt hpos hle _ ih => exact .label hlt hpos hle ih

/-- A name that is written out is read to its end. -/
theorem WrittenAt.parseNameLoop (h : WrittenAt m pos ls stop) {fuel : Nat} (jumps : Nat)
    (name : Str) (hfuel : ls.length < fuel) :
    parseNameLoop m fuel jumps pos name = .ok (.ok (ls.foldl pushLabel name, stop)) := by
  induction h generalizing fuel name with
  | root hlt hzero =>
    cases fuel with
    | zero => cases hfuel
    | succ fuel =>
      rw [Dns.parseNameLoop, if_pos hlt, index_of_lt hlt, ok_bind, if_pos hzero]
      rfl
  | @label pos stop ls hlt hpos hle hrest ih =>
    cases fuel with
    | zero => cases hfuel
    | succ fuel =>
      have hend : pos + 1 + (byteAt m pos).toNat ≤ m.length := by
        have := hrest.pos_lt
        have := hrest.stop_le
        omega
      have hzero : byteAt m pos ≠ 0 := by
        intro hzero
        simp [hzero] at hpos
      have hpointer : ¬ isPointer (byteAt m pos) = true := by
        rw [isPointer_iff]
        omega
      have hlabel : range m (pos + 1) (pos + 1 + (byteAt m pos).toNat) =
          .ok (slice m (pos + 1) (pos + 1 + (byteAt m pos).toNat)) := if_pos ⟨by omega, hend⟩
      rw [List.length_cons] at hfuel
      rw [Dns.parseNameLoop, if_pos hlt, index_of_lt hlt, ok_bind, if_neg hzero, if_neg hpointer,
        if_neg (by omega), hlabel, ok_bind, ih _ (by omega)]
      rfl

theorem WrittenAt.ne_nil (h : WrittenAt m pos ls stop) : ∀ l ∈ ls, l ≠ [] := by
  induction h with
  | root => exact fun l hl => nomatch hl
  | @label pos stop ls hlt hpos hle hrest ih =>
    have hend := hrest.pos_lt
    have hstop := hrest.stop_le
    intro l hl
    rcases List.mem_cons.mp hl with rfl | hl
    · intro hnil
      have hlength := congrArg List.length hnil
      rw [length_slice _ _ _ (by omega), List.length_nil] at hlength
      omega
    · exact ih l hl

theorem fromUtf8Lossy_ne_nil {label : Bytes} (h : label ≠ []) : fromUtf8Lossy label ≠ [] := by
  cases label with
  | nil => exact absurd rfl h
  | cons first rest =>
    rw [fromUtf8Lossy_cons]
    exact List.cons_ne_nil _ _

/-- Labels that are not empty are joined by dots. -/
theorem foldl_pushLabel {ls : List Bytes} (hls : ∀ l ∈ ls, l ≠ []) :
    ls.foldl pushLabel [] = nameText ls := by
  have hmore : ∀ (ls : List Bytes) (name : Str), name ≠ [] →
      ls.foldl pushLabel name = ['.'].intercalate (name :: ls.map fromUtf8Lossy) := by
    intro ls
    induction ls with
    | nil =>
      intro name _
      rw [List.foldl_nil, List.map_nil, List.intercalate_singleton]
    | cons l ls ih =>
      intro name hname
      have hpush : pushLabel name l = name ++ ['.'] ++ fromUtf8Lossy l := by
        rw [pushLabel, if_neg hname]
      rw [List.foldl_cons, hpush, ih _ (by simp), List.map_cons, List.intercalate_cons_cons]
      cases ls with
      | nil => simp
      | cons l' ls => simp [List.intercalate_cons_cons]
  cases ls with
  | nil => rfl
  | cons l ls =>
    have hfirst : pushLabel [] l = fromUtf8Lossy l := by simp [pushLabel]
    rw [List.foldl_cons, hfirst, hmore ls _ (fromUtf8Lossy_ne_nil (hls l List.mem_cons_self)),
      nameText, List.map_cons]

theorem WrittenAt.parseName (h : WrittenAt m pos ls stop) :
    parseName m pos = .ok (.ok (nameText ls, stop)) := by
  have hlength := h.pos_lt
  have hstop := h.stop_le
  rw [Dns.parseName, h.parseNameLoop 0 [] (by omega), foldl_pushLabel h.ne_nil]

theorem OwnerAt.pos_lt (h : OwnerAt m pos ls stop) : pos < stop := by
  induction h with
  | root => exact Nat.lt_succ_self _
  | label hlt hpos hle hrest ih => omega
  | pointer => omega

/-- Behind a pointer the parser is before it. -/
theorem OwnerAt.parseNameLoop_end (h : OwnerAt m pos ls stop) {fuel jumps : Nat} {name text : Str}
    {e : Nat} (hparse : parseNameLoop m fuel jumps pos name = .ok (.ok (text, e))) :
    e ≤ stop ∧ (¬ WrittenAt m pos ls stop → e < stop) := by
  have hpos := h.pos_lt
  induction h generalizing fuel jumps name with
  | root hlt hzero =>
    refine ⟨?_, fun hnot => absurd (.root hlt hzero) hnot⟩
    cases fuel with
    | zero =>
      cases hparse
      exact hpos.le
    | succ fuel =>
      rw [Dns.parseNameLoop, if_pos hlt, index_of_lt hlt, ok_bind, if_pos hzero] at hparse
      cases hparse
      exact Nat.le_refl _
  | @label pos stop ls hlt hfirst hle hrest ih =>
    cases fuel with
    | zero =>
      cases hparse
      exact ⟨hpos.le, fun _ => hpos⟩
    | succ fuel =>
      have hzero : byteAt m pos ≠ 0 := by
        intro hzero
        simp [hzero] at hfirst
      have hpointer : ¬ isPointer (byteAt m pos) = true := by
        rw [isPointer_iff]
        omega
      rw [Dns.parseNameLoop, if_pos hlt, index_of_lt hlt, ok_bind, if_neg hzero, if_neg hpointer]
        at hparse
      split at hparse
      · cases hparse
      · obtain ⟨label, -, hparse⟩ := bind_eq_ok hparse
        obtain ⟨hend, hbefore⟩ := ih hparse hrest.pos_lt
        exact ⟨hend, fun hnot => hbefore fun hwritten => hnot (.label hlt hfirst hle hwritten)⟩
  | @pointer pos stop ls hlt hpointer htarget hearlier ih =>
    have hbefore : e ≤ pos := by
      cases fuel with
      | zero =>
        cases hparse
        exact Nat.le_refl _
      | succ fuel =>
        have hzero : byteAt m pos ≠ 0 := by
          intro hzero
          simp [hzero] at hpointer
        rw [Dns.parseNameLoop, if_pos (by omega), index_of_lt (by omega), ok_bind, if_neg hzero,
          if_pos (isPointer_iff.mpr hpointer)] at hparse
        split at hparse
        · cases hparse
        · -- the labels at the target end before the pointer
          rw [index_of_lt hlt, ok_bind, pointerOffset_eq hpointer] at hparse
          exact (ih hparse htarget.pos_lt).1.trans hearlier
    exact ⟨by omega, fun _ => by omega⟩

/-- For a name with a pointer the parser never gives the end that it has. -/
theorem end_lt_of_pointer (h : OwnerAt m pos ls stop) (hpointer : ¬ WrittenAt m pos ls stop)
    {text : Str} {e : Nat} (hparse : parseName m pos = .ok (.ok (text, e))) : e < stop :=
  (h.parseNameLoop_end hparse).2 hpointer

end names

/-! ## Section 3: Records -/

section records
variable {m : Bytes} {pos : Nat} {record : DnsRecord}

theorem parseRrWithRdata_of_written (h : RecordBy m (WrittenAt m) pos record) :
    parseRrWithRdata m pos =
      .ok (.ok (nameText record.owner, record.rrType, record.rrClass,
        slice m record.start record.stop)) := by
  obtain ⟨nameEnd, hname, htype, hclass, -, hstart, hstop, hle⟩ := h
  have hdata : range m (nameEnd + 10) (nameEnd + 10 + (u16At m (nameEnd + 8)).toNat) =
      .ok (slice m record.start record.stop) := by
    rw [hstart, hstop]
    exact if_pos ⟨by omega, by omega⟩
  unfold parseRrWithRdata tryBind
  rw [hname.parseName, ok_bind]
  simp only
  rw [if_neg (by omega), readU16_of_lt (by omega), ok_bind, readU16_of_lt (by omega), ok_bind,
    readU16_of_lt (by omega), ok_bind, if_neg (by omega), hdata, ok_bind, htype, hclass]
  rfl

theorem parseRrFull_of_written (h : RecordBy m (WrittenAt m) pos record) :
    parseRrFull m pos =
      .ok (.ok (nameText record.owner, record.rrType, record.rrClass, record.ttl.toNat,
        slice m record.start record.stop)) := by
  obtain ⟨nameEnd, hname, htype, hclass, httl, hstart, hstop, hle⟩ := h
  have hdata : range m (nameEnd + 10) (nameEnd + 10 + (u16At m (nameEnd + 8)).toNat) =
      .ok (slice m record.start record.stop) := by
    rw [hstart, hstop]
    exact if_pos ⟨by omega, by omega⟩
  unfold parseRrFull tryBind
  rw [hname.parseName, ok_bind]
  simp only
  rw [if_neg (by omega), readU16_of_lt (by omega), ok_bind, readU16_of_lt (by omega), ok_bind,
    readU16_of_lt (by omega), ok_bind, readU16_of_lt (by omega), ok_bind,
    readU16_of_lt (by omega), ok_bind, if_neg (by omega), hdata, ok_bind, htype, hclass, httl,
    toNat_u32At]
  rfl

theorem skipRrWithRdata_of_written (h : RecordBy m (WrittenAt m) pos record) :
    skipRrWithRdata m pos = .ok record.stop := by
  obtain ⟨nameEnd, hname, -, -, -, -, hstop, hle⟩ := h
  unfold skipRrWithRdata nameEndOr
  rw [hname.parseName, ok_bind]
  show (if nameEnd + 10 > m.length then _ else _) = _
  rw [if_neg (by omega), readU16_of_lt (by omega), ok_bind, hstop]
  rfl

/-- A loop that reads and skips each record comes to the end of the last one. -/
theorem parseMany_of_run {α : Type} {parse : Nat → Checked (Except Str α)}
    {skip : Nat → Checked Nat} {f : DnsRecord → α} {records : List DnsRecord} {stop : Nat}
    (hparse : ∀ {pos record}, RecordBy m (WrittenAt m) pos record →
      parse pos = .ok (.ok (f record)) ∧ skip pos = .ok record.stop)
    (h : RecordRun m (WrittenAt m) pos records stop) (acc : List α) :
    parseMany parse skip records.length pos acc = .ok (.ok (acc ++ records.map f, stop)) := by
  induction h generalizing acc with
  | nil => rw [List.map_nil, List.append_nil]; rfl
  | cons hrecord _ ih =>
    obtain ⟨hitem, hskip⟩ := hparse hrecord
    rw [List.length_cons, parseMany]
    unfold tryBind
    rw [hitem, ok_bind]
    simp only
    rw [hskip, ok_bind, ih, List.map_cons, List.append_assoc, List.singleton_append]

theorem RecordRun.append {Name : Nat → List Bytes → Nat → Prop} {mid stop : Nat}
    {records more : List DnsRecord} (h : RecordRun m Name pos records mid)
    (h' : RecordRun m Name mid more stop) : RecordRun m Name pos (records ++ more) stop := by
  induction h with
  | nil => exact h'
  | cons hrecord _ ih => exact .cons hrecord (ih h')

end records

/-! ## Section 4: The message -/

/-- Names without pointers are names. -/
theorem Uncompressed.updateAt {m : Bytes} {s : UpdateSections} (h : Uncompressed m s) :
    UpdateAt m s := by
  have hrun : ∀ {pos stop : Nat} {records : List DnsRecord},
      RecordRun m (WrittenAt m) pos records stop → RecordRun m (OwnerAt m) pos records stop := by
    intro pos stop records hrecords
    induction hrecords with
    | nil => exact .nil
    | cons hrecord _ ih =>
      obtain ⟨nameEnd, hname, hfields⟩ := hrecord
      exact .cons ⟨nameEnd, hname.ownerAt, hfields⟩ ih
  obtain ⟨⟨hlength, hopcode, hzones, hprereqs, hupdates, hadditional, nameEnd, updateStart,
    additionalStart, hname, hzone, hclass, hprerequisites, hupdate, hmore⟩, -⟩ := h
  exact ⟨hlength, hopcode, hzones, hprereqs, hupdates, hadditional, nameEnd, updateStart,
    additionalStart, hname.ownerAt, hzone, hclass, hrun hprerequisites, hrun hupdate, hrun hmore⟩

/-- Without pointers the message is read as it is laid out. -/
theorem parse_of_written {m : Bytes} {s : UpdateSections} (hplain : Uncompressed m s) :
    UpdateAt m s ∧ DynamicUpdate.parse m = .ok (.ok (s.parsed m)) := by
  refine ⟨hplain.updateAt, ?_⟩
  obtain ⟨⟨hlength, hopcode, hzones, hprereqs, hupdates, hadditional, nameEnd, updateStart,
    additionalStart, hname, hzone, hclass, hprerequisites, hupdate, hmore⟩, hcount⟩ := hplain
  have hzoneSection : parseZone m (u16At m 4) =
      .ok (.ok (some ⟨nameText s.zoneName, s.zoneClass⟩, nameEnd + 4)) := by
    have hpos : u16At m 4 > 0 := by
      rw [gt_iff_lt, UInt16.lt_iff_toNat_lt, hzones]
      decide
    unfold parseZone parseRr skipRr nameEndOr tryBind
    rw [if_pos hpos, hname.parseName]
    simp only [ok_bind]
    rw [if_neg (by omega), readU16_of_lt (by omega), ok_bind, readU16_of_lt (by omega), ok_bind,
      ← hclass]
    rfl
  have hfirst : parseMany (parsePrerequisite m) (skipRrWithRdata m) (u16At m 6).toNat
      (nameEnd + 4) [] = .ok (.ok ((s.parsed m).prerequisites, updateStart)) := by
    rw [← hprereqs]
    refine parseMany_of_run ?_ hprerequisites []
    intro pos record hrecord
    refine ⟨?_, skipRrWithRdata_of_written hrecord⟩
    unfold parsePrerequisite tryBind
    rw [parseRrWithRdata_of_written hrecord]
    rfl
  have hsum : checkedAdd 16 (u16At m 8).toNat (u16At m 10).toNat =
      .ok (s.updates ++ s.additional).length := by
    rw [List.length_append, hupdates, hadditional]
    exact if_pos (by omega)
  have hsecond : parseMany (parseUpdate m) (skipRrFull m) (s.updates ++ s.additional).length
      updateStart [] = .ok (.ok ((s.parsed m).updates, m.length)) := by
    refine parseMany_of_run ?_ (hupdate.append hmore) []
    intro pos record hrecord
    refine ⟨?_, skipRrWithRdata_of_written hrecord⟩
    unfold parseUpdate tryBind
    rw [parseRrFull_of_written hrecord]
    rfl
  unfold DynamicUpdate.parse parseSections tryBind
  rw [if_neg (by omega), readU16_of_lt (by omega), ok_bind, if_neg (by rw [hopcode]; simp),
    readU16_of_lt (by omega), ok_bind, readU16_of_lt (by omega), ok_bind,
    readU16_of_lt (by omega), ok_bind, readU16_of_lt (by omega), ok_bind, hzoneSection, ok_bind]
  simp only
  rw [hfirst, ok_bind]
  simp only
  rw [hsum, ok_bind, hsecond, ok_bind]
  rfl

/-- Adds an address for `a` to the zone `a`. -/
def writtenUpdate : Bytes :=
  [0, 1, 0x28, 0, 0, 1, 0, 0, 0, 1, 0, 0] ++ [1, 97, 0, 0, 6, 0, 1] ++
    [1, 97, 0, 0, 1, 0, 1, 0, 0, 0, 60, 0, 4, 10, 0, 0, 1]

/-- The same with a pointer to the name of the zone. -/
def pointedUpdate : Bytes :=
  [0, 1, 0x28, 0, 0, 1, 0, 0, 0, 1, 0, 0] ++ [1, 97, 0, 0, 6, 0, 1] ++
    [0xC0, 12, 0, 1, 0, 1, 0, 0, 0, 60, 0, 4, 10, 0, 0, 1]

/-- Their sections; the RDATA of the record starts at `start`. -/
def oneAddress (start : Nat) : UpdateSections where
  zoneName := [[97]]
  zoneClass := 1
  prerequisites := []
  updates := [⟨[[97]], 1, 1, 60, start, start + 4⟩]
  additional := []

/-- The name `a` written out. -/
theorem writtenAt_a {m : Bytes} {pos : Nat} (hone : byteAt m pos = 1)
    (hzero : byteAt m (pos + 2) = 0)
    (hlabel : slice m (pos + 1) (pos + 2) = [97]) (hlt : pos + 2 < m.length) :
    WrittenAt m pos [[97]] (pos + 3) := by
  have hlen : (byteAt m pos).toNat = 1 := by rw [hone]; rfl
  have hroot : WrittenAt m (pos + 1 + (byteAt m pos).toNat) [] (pos + 3) := by
    rw [hlen]
    exact .root hlt hzero
  have hall := WrittenAt.label (by omega) hlen.ge (by omega) hroot
  rwa [hlen, hlabel] at hall

theorem written_update_parsed :
    DynamicUpdate.parse writtenUpdate = .ok (.ok ((oneAddress 32).parsed writtenUpdate)) := by
  have hzone : WrittenAt writtenUpdate 12 [[97]] 15 :=
    writtenAt_a (by decide) (by decide) (by decide) (by decide)
  have howner : WrittenAt writtenUpdate 19 [[97]] 22 :=
    writtenAt_a (by decide) (by decide) (by decide) (by decide)
  refine (parse_of_written ⟨⟨by decide, by decide, by decide, by decide, by decide, by decide, 15,
    19, 36, hzone, by decide, by decide, .nil, ?_, .nil⟩, by decide⟩).2
  exact .cons ⟨22, howner, by decide, by decide, by decide, rfl, by decide, by decide⟩ .nil

/-- The type that is read is the one of the zone. -/
theorem pointed_update_misread :
    UpdateAt pointedUpdate (oneAddress 31) ∧
      DynamicUpdate.parse pointedUpdate ≠ .ok (.ok ((oneAddress 31).parsed pointedUpdate)) := by
  have hzone : WrittenAt pointedUpdate 12 [[97]] 15 :=
    writtenAt_a (by decide) (by decide) (by decide) (by decide)
  have howner : OwnerAt pointedUpdate 19 [[97]] 21 :=
    .pointer (by decide) (by decide) hzone.ownerAt (by decide)
  refine ⟨⟨by decide, by decide, by decide, by decide, by decide, by decide, 15, 19, 35,
    hzone.ownerAt, by decide, by decide, .nil, ?_, .nil⟩, ?_⟩
  · exact .cons ⟨21, howner, by decide, by decide, by decide, rfl, by decide, by decide⟩ .nil
  · intro h
    have htypes : ((DynamicUpdate.parse pointedUpdate).toOption.bind Except.toOption).map
        (fun update => update.updates.map UpdateRecord.rtype) = some [6] := by
      decide +kernel
    rw [h] at htypes
    cases htypes

end Synvoid.Dns
