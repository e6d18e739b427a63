import Synvoid.Framework.DnsName

/-! # DNS messages by RFC 1035

    The grammar of a message as relations between a byte string, a position in
    it, what stands there and the position behind it. A name may end in a
    pointer to a name elsewhere in the message (`NameAt`), so positions are
    kept, not suffixes. A derivation is finite, hence so is a chain of pointers.

    * `RecordAt`: a resource record, of which the RDATA is kept as an interval;
    * `IsMessage`: header, questions and the records of the three sections,
      as many as the header counts, with nothing left over;
    * `DataAt`: the RDATA of a record by its type.
-/

namespace Synvoid.Framework

/-! ### Names -/

/-- The offset of a pointer. -/
def nameOffset (hi lo : UInt8) : Nat := (hi.toNat - 192) * 256 + lo.toNat

/-- The name at `pos` has these labels, and what is written of it there ends at `stop`. -/
inductive NameAt (m : Bytes) : Nat → List Bytes → Nat → Prop where
  | root {pos : Nat} (hlt : pos < m.length) (hzero : byteAt m pos = 0) : NameAt m pos [] (pos + 1)
  | label {pos stop : Nat} {ls : List Bytes} (hlt : pos < m.length)
      (hpos : 1 ≤ (byteAt m pos).toNat) (hle : (byteAt m pos).toNat ≤ 63)
      (hrest : NameAt m (pos + 1 + (byteAt m pos).toNat) ls stop) :
      NameAt m pos (slice m (pos + 1) (pos + 1 + (byteAt m pos).toNat) :: ls) stop
  | pointer {pos stop : Nat} {ls : List Bytes} (hlt : pos + 1 < m.length)
      (hpointer : 192 ≤ (byteAt m pos).toNat)
      (htarget : NameAt m (nameOffset (byteAt m pos) (byteAt m (pos + 1))) ls stop) :
      NameAt m pos ls (pos + 2)

namespace NameAt

variable {m : Bytes} {pos stop : Nat} {ls : List Bytes}

/-- A position has at most one name. -/
theorem unique {ls' : List Bytes} {stop' : Nat} (h : NameAt m pos ls stop)
    (h' : NameAt m pos ls' stop') : ls = ls' ∧ stop = stop' := by
  induction h generalizing ls' stop' with
  | root hlt hzero =>
    cases h' with
    | root _ _ => exact ⟨rfl, rfl⟩
    | label _ hpos _ _ => simp [hzero] at hpos
    | pointer _ hpointer _ => simp [hzero] at hpointer
  | label hlt hpos hle hrest ih =>
    cases h' with
    | root _ hzero => simp [hzero] at hpos
    | label _ _ _ hrest' =>
      obtain ⟨rfl, rfl⟩ := ih hrest'
      exact ⟨rfl, rfl⟩
    | pointer _ hpointer _ => omega
  | pointer hlt hpointer htarget ih =>
    cases h' with
    | root _ hzero => simp [hzero] at hpointer
    | label _ _ hle _ => omega
    | pointer _ _ htarget' =>
      obtain ⟨rfl, -⟩ := ih htarget'
      exact ⟨rfl, rfl⟩

/-- A name ends with a zero byte or with the two bytes of a pointer. -/
theorem ends (h : NameAt m pos ls stop) :
    (pos + 1 ≤ stop ∧ stop ≤ m.length ∧ byteAt m (stop - 1) = 0) ∨
      (pos + 2 ≤ stop ∧ stop ≤ m.length ∧ 192 ≤ (byteAt m (stop - 2)).toNat) := by
  induction h with
  | root hlt hzero => exact .inl ⟨Nat.le_refl _, hlt, hzero⟩
  | label hlt hpos hle hrest ih =>
    rcases ih with ⟨hstop, hle', hzero⟩ | ⟨hstop, hle', hpointer⟩
    · exact .inl ⟨by omega, hle', hzero⟩
    · exact .inr ⟨by omega, hle', hpointer⟩
  | pointer hlt hpointer htarget _ => exact .inr ⟨Nat.le_refl _, hlt, hpointer⟩

theorem stop_le (h : NameAt m pos ls stop) : stop ≤ m.length := by
  rcases h.ends with ⟨-, hle, -⟩ | ⟨-, hle, -⟩ <;> exact hle

/-- A label given by its bytes. -/
theorem of_label {l : Bytes} (hpos : 1 ≤ l.length) (hle : l.length ≤ 63) (hlt : pos < m.length)
    (hbyte : byteAt m pos = UInt8.ofNat l.length)
    (hslice : slice m (pos + 1) (pos + 1 + l.length) = l)
    (hrest : NameAt m (pos + 1 + l.length) ls stop) : NameAt m pos (l :: ls) stop := by
  have hlength : (byteAt m pos).toNat = l.length := by
    rw [hbyte, UInt8.toNat_ofNat', Nat.mod_eq_of_lt (by omega)]
  rw [← hlength] at hrest hslice hpos hle
  have hname := NameAt.label hlt hpos hle hrest
  rwa [hslice] at hname

/-- A name that is written out. -/
theorem of_wireName (hls : ∀ l ∈ ls, 1 ≤ l.length ∧ l.length ≤ 63) (front rest : Bytes) :
    NameAt (front ++ (wireName ls ++ rest)) front.length ls
      (front.length + (wireName ls).length) := by
  induction ls generalizing front with
  | nil =>
    refine .root (by simp [wireName]) ?_
    have hzero := byteAt_append_right front (wireName [] ++ rest) 0
    rwa [Nat.add_zero] at hzero
  | cons l ls ih =>
    obtain ⟨⟨hpos, hle⟩, hrest⟩ := List.forall_mem_cons.mp hls
    -- the rest of the name stands behind the label
    have htail := ih hrest (front ++ UInt8.ofNat l.length :: l)
    have hsplit : front ++ (wireName (l :: ls) ++ rest) =
        (front ++ UInt8.ofNat l.length :: l) ++ (wireName ls ++ rest) := by
      simp [wireName_cons]
    have hlength : (front ++ UInt8.ofNat l.length :: l).length = front.length + 1 + l.length := by
      simp only [List.length_append, List.length_cons]
      omega
    have hstop : front.length + (wireName (l :: ls)).length =
        front.length + 1 + l.length + (wireName ls).length := by
      rw [wireName_cons]
      simp only [List.length_cons, List.length_append]
      omega
    rw [← hsplit, hlength, ← hstop] at htail
    refine of_label hpos hle (by simp [wireName_cons]) ?_ ?_ htail
    · calc byteAt (front ++ (wireName (l :: ls) ++ rest)) front.length
          = byteAt (wireName (l :: ls) ++ rest) 0 := byteAt_append_right front _ 0
        _ = UInt8.ofNat l.length := by rw [wireName_cons]; rfl
    · have hfront : front.drop (front.length + 1) = [] := List.drop_eq_nil_of_le (Nat.le_succ _)
      simp [slice, wireName_cons, List.drop_append, hfront]

end NameAt

/-! ### Records -/

/-- A resource record; its RDATA are the bytes from `start` to `stop`. -/
structure DnsRecord where
  owner : List Bytes
  rrType : UInt16
  rrClass : UInt16
  ttl : UInt32
  start : Nat
  stop : Nat

/-- The record at `pos`; it ends with its RDATA. -/
def RecordAt (m : Bytes) (pos : Nat) (record : DnsRecord) : Prop :=
  ∃ nameEnd, NameAt m pos record.owner nameEnd ∧ record.rrType = u16At m nameEnd ∧
    record.rrClass = u16At m (nameEnd + 2) ∧ record.ttl = u32At m (nameEnd + 4) ∧
    record.start = nameEnd + 10 ∧
    record.stop = nameEnd + 10 + (u16At m (nameEnd + 8)).toNat ∧ record.stop ≤ m.length

/-- Records one behind the other. -/
inductive RecordsAt (m : Bytes) : Nat → List DnsRecord → Nat → Prop where
  | nil {pos : Nat} : RecordsAt m pos [] pos
  | cons {pos stop : Nat} {record : DnsRecord} {records : List DnsRecord}
      (hrecord : RecordAt m pos record) (hrest : RecordsAt m record.stop records stop) :
      RecordsAt m pos (record :: records) stop

/-- Questions one behind the other: a name, a type and a class. -/
inductive QuestionsAt (m : Bytes) : Nat → Nat → Nat → Prop where
  | nil {pos : Nat} : QuestionsAt m pos 0 pos
  | cons {pos nameEnd stop count : Nat} {ls : List Bytes} (hname : NameAt m pos ls nameEnd)
      (hlt : nameEnd + 4 ≤ m.length) (hrest : QuestionsAt m (nameEnd + 4) count stop) :
      QuestionsAt m pos (count + 1) stop

/-- A message with these answers: the sections have as many entries as the header counts, and
    they end with the message. -/
def IsMessage (m : Bytes) (answers : List DnsRecord) : Prop :=
  12 ≤ m.length ∧ ∃ answerStart authorityStart additionalStart authority additional,
    QuestionsAt m 12 (u16At m 4).toNat answerStart ∧
    RecordsAt m answerStart answers authorityStart ∧ answers.length = (u16At m 6).toNat ∧
    RecordsAt m authorityStart authority additionalStart ∧
    authority.length = (u16At m 8).toNat ∧
    RecordsAt m additionalStart additional m.length ∧ additional.length = (u16At m 10).toNat

/-- The three sections of a message. -/
def HasSections (m : Bytes) (answers authority additional : List DnsRecord) : Prop :=
  12 ≤ m.length ∧ ∃ answerStart authorityStart additionalStart,
    QuestionsAt m 12 (u16At m 4).toNat answerStart ∧
    RecordsAt m answerStart answers authorityStart ∧ answers.length = (u16At m 6).toNat ∧
    RecordsAt m authorityStart authority additionalStart ∧
    authority.length = (u16At m 8).toNat ∧
    RecordsAt m additionalStart additional m.length ∧ additional.length = (u16At m 10).toNat

/-! ### Data of records -/

inductive RecordData where
  | address (octets : Bytes)
  | name (target : List Bytes)
  | soa (mname rname : List Bytes) (serial refresh retry expire minimum : UInt32)
  | mx (preference : UInt16) (exchange : List Bytes)
  | srv (priority weight port : UInt16) (target : List Bytes)
  /-- The strings of a text record, joined. -/
  | txt (text : Bytes)
  deriving DecidableEq

/-- Character strings, each behind its length. -/
inductive StringsAt (m : Bytes) : Nat → List Bytes → Nat → Prop where
  | nil {pos : Nat} : StringsAt m pos [] pos
  | cons {pos stop : Nat} {strings : List Bytes} (hlt : pos < m.length)
      (hrest : StringsAt m (pos + 1 + (byteAt m pos).toNat) strings stop) :
      StringsAt m pos (slice m (pos + 1) (pos + 1 + (byteAt m pos).toNat) :: strings) stop

/-- The RDATA of a record, of all its bytes, by its type. -/
def DataAt (m : Bytes) (record : DnsRecord) : RecordData → Prop
  | .address octets =>
      (record.rrType = 1 ∧ record.stop = record.start + 4 ∨
        record.rrType = 28 ∧ record.stop = record.start + 16) ∧
      octets = slice m record.start record.stop
  | .name target =>
      (record.rrType = 2 ∨ record.rrType = 5 ∨ record.rrType = 12) ∧
      NameAt m record.start target record.stop
  | .soa mname rname serial refresh retry expire minimum =>
      record.rrType = 6 ∧ ∃ mnameEnd numbers, NameAt m record.start mname mnameEnd ∧
        NameAt m mnameEnd rname numbers ∧ record.stop = numbers + 20 ∧
        serial = u32At m numbers ∧ refresh = u32At m (numbers + 4) ∧
        retry = u32At m (numbers + 8) ∧ expire = u32At m (numbers + 12) ∧
        minimum = u32At m (numbers + 16)
  | .mx preference exchange =>
      record.rrType = 15 ∧ preference = u16At m record.start ∧
      NameAt m (record.start + 2) exchange record.stop
  | .srv priority weight port target =>
      record.rrType = 33 ∧ priority = u16At m record.start ∧ weight = u16At m (record.start + 2) ∧
      port = u16At m (record.start + 4) ∧ NameAt m (record.start + 6) target record.stop
  | .txt text =>
      record.rrType = 16 ∧ ∃ strings, strings ≠ [] ∧
        StringsAt m record.start strings record.stop ∧ text = strings.flatten

/-! ### Records that are written out -/

/-- Behind two parts of a message. -/
theorem u16At_behind (a b rest : Bytes) (i : Nat) :
    u16At (a ++ (b ++ rest)) (a.length + b.length + i) = u16At rest i := by
  rw [Nat.add_assoc, u16At_append_right, u16At_append_right]

theorem u32At_behind (a b rest : Bytes) (i : Nat) :
    u32At (a ++ (b ++ rest)) (a.length + b.length + i) = u32At rest i := by
  rw [Nat.add_assoc, u32At_append_right, u32At_append_right]

/-- Type, class, TTL and RDLENGTH of a record. -/
def recordFields (rrType rrClass : UInt16) (ttl : UInt32) (rdlength : UInt16) : Bytes :=
  u16ToBe rrType ++ (u16ToBe rrClass ++ (u32ToBe ttl ++ u16ToBe rdlength))

theorem recordFields_at (rrType rrClass : UInt16) (ttl : UInt32) (rdlength : UInt16)
    (rest : Bytes) :
    let bytes := recordFields rrType rrClass ttl rdlength ++ rest
    u16At bytes 0 = rrType ∧ u16At bytes 2 = rrClass ∧ u32At bytes 4 = ttl ∧
      u16At bytes 8 = rdlength := by
  unfold recordFields
  simp only [List.append_assoc]
  refine ⟨u16At_u16ToBe_append _ _, ?_, ?_, ?_⟩
  · exact (u16At_append_right (u16ToBe rrType) _ 0).trans (u16At_u16ToBe_append _ _)
  · exact (u32At_append_right (u16ToBe rrType) _ 2).trans
      ((u32At_append_right (u16ToBe rrClass) _ 0).trans (u32At_u32ToBe_append _ _))
  · exact (u16At_append_right (u16ToBe rrType) _ 6).trans
      ((u16At_append_right (u16ToBe rrClass) _ 4).trans
        ((u16At_append_right (u32ToBe ttl) _ 0).trans (u16At_u16ToBe_append _ _)))

theorem recordAt_written {ls : List Bytes} (hls : ∀ l ∈ ls, 1 ≤ l.length ∧ l.length ≤ 63)
    (rrType rrClass : UInt16) (ttl : UInt32) {rdata : Bytes} (hrdata : rdata.length < 65536)
    (front rest : Bytes) :
    let start := front.length + (wireName ls).length + 10
    RecordAt (front ++ (wireName ls ++
      (recordFields rrType rrClass ttl (UInt16.ofNat rdata.length) ++ (rdata ++ rest))))
      front.length ⟨ls, rrType, rrClass, ttl, start, start + rdata.length⟩ := by
  obtain ⟨htype, hclass, httl, hlength⟩ := recordFields_at rrType rrClass ttl
    (UInt16.ofNat rdata.length) (rdata ++ rest)
  refine ⟨front.length + (wireName ls).length, NameAt.of_wireName hls front _, ?_, ?_, ?_, rfl, ?_,
    ?_⟩
  · exact htype.symm.trans (u16At_behind front (wireName ls) _ 0).symm
  · exact hclass.symm.trans (u16At_behind front (wireName ls) _ 2).symm
  · exact httl.symm.trans (u32At_behind front (wireName ls) _ 4).symm
  · rw [u16At_behind, hlength, UInt16.toNat_ofNat', Nat.mod_eq_of_lt hrdata]
  · simp only [List.length_append, recordFields, length_u16ToBe, length_u32ToBe]
    omega

/-- A message with one question and one answer. -/
theorem isMessage_written {header : Bytes} (hheader : header.length = 12) {qs ls : List Bytes}
    (hqs : ∀ l ∈ qs, 1 ≤ l.length ∧ l.length ≤ 63) (hls : ∀ l ∈ ls, 1 ≤ l.length ∧ l.length ≤ 63)
    {question : Bytes} (hquestion : question.length = 4) (rrType rrClass : UInt16) (ttl : UInt32)
    {rdata : Bytes} (hrdata : rdata.length < 65536) {m : Bytes}
    (hm : m = header ++ (wireName qs ++ (question ++ (wireName ls ++
      (recordFields rrType rrClass ttl (UInt16.ofNat rdata.length) ++ rdata)))))
    (hcounts : u16At m 4 = 1 ∧ u16At m 6 = 1 ∧ u16At m 8 = 0 ∧ u16At m 10 = 0) :
    IsMessage m [⟨ls, rrType, rrClass, ttl, m.length - rdata.length, m.length⟩] := by
  obtain ⟨hqd, han, hns, har⟩ := hcounts
  -- the front of the answer
  let front := header ++ (wireName qs ++ question)
  have hfront : front.length = 12 + (wireName qs).length + 4 := by
    simp only [front, List.length_append, hheader, hquestion]
    omega
  have hlength : m.length = front.length + (wireName ls).length + 10 + rdata.length := by
    rw [hm, hfront]
    simp only [List.length_append, hheader, hquestion, recordFields, length_u16ToBe, length_u32ToBe]
    omega
  have hname : NameAt m 12 qs (12 + (wireName qs).length) := by
    have hwritten := NameAt.of_wireName hqs header (question ++ (wireName ls ++
      (recordFields rrType rrClass ttl (UInt16.ofNat rdata.length) ++ rdata)))
    rwa [hheader, ← hm] at hwritten
  have hrecord := recordAt_written hls rrType rrClass ttl hrdata front []
  have hsame : front ++ (wireName ls ++ (recordFields rrType rrClass ttl
      (UInt16.ofNat rdata.length) ++ (rdata ++ []))) = m := by
    rw [hm]
    simp only [front, List.append_assoc, List.append_nil]
  simp only [hsame, ← hlength] at hrecord
  rw [show front.length + (wireName ls).length + 10 = m.length - rdata.length by omega] at hrecord
  refine ⟨by omega, front.length, m.length, m.length, [], [], ?_, .cons hrecord .nil, ?_, .nil, ?_,
    .nil, ?_⟩
  · rw [hqd, hfront]
    exact .cons hname (by omega) .nil
  · rw [han]
    rfl
  · rw [hns]
    rfl
  · rw [har]
    rfl

/-- The numbers of an SOA record. -/
def soaNumbers (serial refresh retry expire minimum : UInt32) : Bytes :=
  u32ToBe serial ++ (u32ToBe refresh ++ (u32ToBe retry ++ (u32ToBe expire ++ u32ToBe minimum)))

theorem soaData_written {mname rname : List Bytes}
    (hmname : ∀ l ∈ mname, 1 ≤ l.length ∧ l.length ≤ 63)
    (hrname : ∀ l ∈ rname, 1 ≤ l.length ∧ l.length ≤ 63)
    (serial refresh retry expire minimum : UInt32) (front rest : Bytes) {record : DnsRecord}
    (htype : record.rrType = 6) (hstart : record.start = front.length)
    (hstop : record.stop = front.length + (wireName mname).length + (wireName rname).length + 20) :
    DataAt (front ++ (wireName mname ++ (wireName rname ++
      (soaNumbers serial refresh retry expire minimum ++ rest)))) record
      (.soa mname rname serial refresh retry expire minimum) := by
  have hmnameAt := NameAt.of_wireName hmname front
    (wireName rname ++ (soaNumbers serial refresh retry expire minimum ++ rest))
  have hrnameAt := NameAt.of_wireName hrname (front ++ wireName mname)
    (soaNumbers serial refresh retry expire minimum ++ rest)
  rw [List.append_assoc, List.length_append] at hrnameAt
  have hnumbers : ∀ i, u32At (front ++ (wireName mname ++ (wireName rname ++
      (soaNumbers serial refresh retry expire minimum ++ rest))))
      (front.length + (wireName mname).length + (wireName rname).length + i) =
      u32At (soaNumbers serial refresh retry expire minimum ++ rest) i := by
    intro i
    have hbehind := u32At_behind (front ++ wireName mname) (wireName rname)
      (soaNumbers serial refresh retry expire minimum ++ rest) i
    rwa [List.append_assoc, List.length_append] at hbehind
  refine ⟨htype, front.length + (wireName mname).length,
    front.length + (wireName mname).length + (wireName rname).length, ?_, hrnameAt, hstop, ?_⟩
  · rwa [hstart]
  · refine ⟨?_, ?_, ?_, ?_, ?_⟩
    · exact ((hnumbers 0).trans
        (by simpa [soaNumbers] using u32At_flatMap_u32ToBe [] serial _)).symm
    · exact ((hnumbers 4).trans
        (by simpa [soaNumbers] using u32At_flatMap_u32ToBe [serial] refresh _)).symm
    · exact ((hnumbers 8).trans
        (by simpa [soaNumbers] using u32At_flatMap_u32ToBe [serial, refresh] retry _)).symm
    · exact ((hnumbers 12).trans
        (by simpa [soaNumbers] using u32At_flatMap_u32ToBe [serial, refresh, retry] expire _)).symm
    · exact ((hnumbers 16).trans
        (by
          simpa [soaNumbers] using
            u32At_flatMap_u32ToBe [serial, refresh, retry, expire] minimum rest)).symm

end Synvoid.Framework
