import Synvoid.Dns.QueryCache
import Synvoid.Framework.DnsMessage

/-! # The lifetime of a cached response

    `extract_ttl_from_response` with its bounds-checked accesses: it never reads
    out of range (`extractTtlChecked_eq`). For a message by RFC 1035 it is the
    least TTL of the answers, or else of the SOA record of the authority section
    (`ttl_of_response`).
-/

namespace Synvoid.Dns

open Synvoid.Framework

/-! ### The accesses -/

section checked
variable (buf : Bytes)

/-- The loop of `skip_dns_name`. -/
def skipDnsNameChecked : Nat → Nat → Framework.Checked (Except TtlParseError Nat)
  | 0, _ => return .error .truncated
  | fuel + 1, p =>
      if p ≥ buf.length then return .error .truncated
      else do
        let len ← index buf p
        if len = 0 then return .ok (p + 1)
        else if len &&& 0xC0 = 0xC0 then
          if p + 2 > buf.length then return .error .truncated else return .ok (p + 2)
        else if len > 63 then return .error .malformedLabel
        else skipDnsNameChecked fuel (p + 1 + len.toNat)

def nameEndChecked (pos : Nat) : Framework.Checked (Except TtlParseError Nat) :=
  skipDnsNameChecked buf (buf.length + 1) pos

def skipQuestionChecked : Nat → Nat → Framework.Checked (Except TtlParseError Nat)
  | 0, pos => return .ok pos
  | count + 1, pos =>
      tryThen (nameEndChecked buf pos) fun pos => skipQuestionChecked count (pos + 4)

def skipHeaderAndQuestionChecked : Framework.Checked (Except TtlParseError Nat) :=
  if buf.length < 12 then return .error .truncated
  else do
    let qdcount ← readU16 buf 4
    skipQuestionChecked buf qdcount.toNat 12

def skipRrSafeChecked (pos : Nat) : Framework.Checked (Except TtlParseError Nat) :=
  tryThen (nameEndChecked buf pos) fun nameEnd =>
    if nameEnd + 10 > buf.length then return .error .truncated
    else do
      let rdlength ← readU16 buf (nameEnd + 8)
      return .ok (nameEnd + 10 + rdlength.toNat)

/-- The loop of `first_answer_ttl`. -/
def minAnswerTtlChecked : Nat → Nat → UInt32 → Framework.Checked (Except TtlParseError UInt32)
  | 0, _, minTtl => return .ok minTtl
  | count + 1, pos, minTtl =>
      tryThen (nameEndChecked buf pos) fun nameEnd =>
        if nameEnd + 10 > buf.length then return .error .truncated
        else do
          let ttl ← readU32 buf (nameEnd + 4)
          tryThen (skipRrSafeChecked buf pos) fun next =>
            minAnswerTtlChecked count next (min minTtl ttl)

def firstAnswerTtlChecked : Framework.Checked (Except TtlParseError (Option UInt32)) :=
  tryThen (skipHeaderAndQuestionChecked buf) fun pos => do
    let ancount ← readU16 buf 6
    if ancount.toNat = 0 then return .ok none
    else
      tryThen (minAnswerTtlChecked buf ancount.toNat pos 0xFFFFFFFF) fun minTtl =>
        return .ok (some minTtl)

def skipAnswersChecked : Nat → Nat → Framework.Checked (Except TtlParseError Nat)
  | 0, pos => return .ok pos
  | count + 1, pos => tryThen (skipRrSafeChecked buf pos) fun pos => skipAnswersChecked count pos

/-- The loop of `negative_soa_ttl`. -/
def soaTtlChecked : Nat → Nat → Framework.Checked (Except TtlParseError (Option UInt32))
  | 0, _ => return .ok none
  | count + 1, pos =>
      tryThen (nameEndChecked buf pos) fun nameEnd =>
        if nameEnd + 10 > buf.length then return .error .truncated
        else do
          let rtype ← readU16 buf nameEnd
          let ttl ← readU32 buf (nameEnd + 4)
          let rdlength ← readU16 buf (nameEnd + 8)
          if rtype = 6 ∧ rdlength.toNat ≥ 20 then
            let minimumPos := nameEnd + 10 + rdlength.toNat - 4
            if minimumPos + 4 > buf.length then return .error .truncated
            else do
              let soaMinimum ← readU32 buf minimumPos
              return .ok (some (min ttl soaMinimum))
          else soaTtlChecked count (nameEnd + 10 + rdlength.toNat)

def negativeSoaTtlChecked : Framework.Checked (Except TtlParseError (Option UInt32)) :=
  tryThen (skipHeaderAndQuestionChecked buf) fun pos => do
    let ancount ← readU16 buf 6
    tryThen (skipAnswersChecked buf ancount.toNat pos) fun answerEnd => do
      let nscount ← readU16 buf 8
      soaTtlChecked buf nscount.toNat answerEnd

/-- `extract_ttl_from_response`, access by access. -/
def extractTtlChecked (negativeCacheTtl : UInt32) : Framework.Checked UInt32 :=
  if buf.length < 12 then return 0
  else do
    let flags ← readU16 buf 2
    let rcode := flags &&& 0x000F
    let ancount ← readU16 buf 6
    let nscount ← readU16 buf 8
    if rcode = 2 ∨ rcode = 5 then return 0
    else if ancount > 0 then do
      match ← firstAnswerTtlChecked buf with
      | .ok (some ttl) => return ttl
      | _ => return 0
    else do
      let soaMinTtl ← if rcode = 3 ∨ nscount > 0 then negativeSoaTtlChecked buf
        else pure (.ok none)
      match soaMinTtl with
      | .ok (some ttl) => return min ttl negativeCacheTtl
      | _ => if rcode = 3 then return negativeCacheTtl else return 0

end checked

variable {buf : Bytes}

/-! ### They are in range -/

theorem skipDnsNameChecked_eq (fuel p : Nat) :
    skipDnsNameChecked buf fuel p = .ok (skipDnsName buf fuel p) := by
  induction fuel generalizing p with
  | zero => rfl
  | succ fuel ih =>
    rw [skipDnsNameChecked, skipDnsName]
    by_cases hend : p ≥ buf.length
    · rw [if_pos hend, if_pos hend]
      rfl
    · rw [if_neg hend, if_neg hend, index_of_lt (Nat.not_le.mp hend), ok_bind]
      simp only [ih]
      split_ifs <;> rfl

theorem nameEndChecked_eq (pos : Nat) : nameEndChecked buf pos = .ok (nameEndAt buf pos) :=
  skipDnsNameChecked_eq _ _

theorem skipQuestionChecked_eq (count pos : Nat) :
    skipQuestionChecked buf count pos = .ok (skipQuestion buf count pos) := by
  induction count generalizing pos with
  | zero => rfl
  | succ count ih => exact tryThen_eq (nameEndChecked_eq pos) fun nameEnd _ => ih (nameEnd + 4)

theorem skipHeaderAndQuestionChecked_eq :
    skipHeaderAndQuestionChecked buf = .ok (skipHeaderAndQuestion buf) := by
  unfold skipHeaderAndQuestionChecked skipHeaderAndQuestion
  by_cases hshort : buf.length < 12
  · rw [if_pos hshort, if_pos hshort]
    rfl
  · rw [if_neg hshort, if_neg hshort, readU16_of_lt (by omega), ok_bind, skipQuestionChecked_eq]

/-- A record's fixed fields are read behind a test of the length. -/
theorem tryThen_fields {α : Type} {pos : Nat}
    {f : Nat → Framework.Checked (Except TtlParseError α)} {g : Nat → Except TtlParseError α}
    (h : ∀ nameEnd, nameEnd + 10 ≤ buf.length → f nameEnd = .ok (g nameEnd)) :
    (tryThen (nameEndChecked buf pos) fun nameEnd =>
      if nameEnd + 10 > buf.length then return .error .truncated else f nameEnd) =
      .ok (rrFields buf pos >>= g) := by
  rw [nameEndChecked_eq, rrFields]
  cases nameEndAt buf pos with
  | error e => rfl
  | ok nameEnd =>
    show (if nameEnd + 10 > buf.length then _ else _) =
      Except.ok ((if nameEnd + 10 > buf.length then _ else _) >>= g)
    by_cases hlong : nameEnd + 10 > buf.length
    · rw [if_pos hlong, if_pos hlong]
      rfl
    · rw [if_neg hlong, if_neg hlong, h nameEnd (Nat.not_lt.mp hlong)]
      rfl

theorem skipRrSafeChecked_eq (pos : Nat) :
    skipRrSafeChecked buf pos = .ok (skipRrSafe buf pos) := by
  refine tryThen_fields fun nameEnd hfits => ?_
  rw [readU16_of_lt (by omega)]
  rfl

theorem minAnswerTtlChecked_eq (count pos : Nat) (minTtl : UInt32) :
    minAnswerTtlChecked buf count pos minTtl = .ok (minAnswerTtl buf count pos minTtl) := by
  induction count generalizing pos minTtl with
  | zero => rfl
  | succ count ih =>
    refine tryThen_fields fun nameEnd hfits => ?_
    rw [readU32_of_lt (by omega), ok_bind]
    exact tryThen_eq (skipRrSafeChecked_eq pos) fun next _ => ih next _

theorem length_of_skipHeaderAndQuestion {pos : Nat} (h : skipHeaderAndQuestion buf = .ok pos) :
    12 ≤ buf.length := by
  unfold skipHeaderAndQuestion at h
  split at h
  · cases h
  · omega

theorem firstAnswerTtlChecked_eq : firstAnswerTtlChecked buf = .ok (firstAnswerTtl buf) := by
  refine tryThen_eq skipHeaderAndQuestionChecked_eq fun pos hpos => ?_
  have hlength := length_of_skipHeaderAndQuestion hpos
  rw [readU16_of_lt (by omega), ok_bind]
  by_cases hzero : (u16At buf 6).toNat = 0
  · rw [if_pos hzero, if_pos hzero]
    rfl
  · rw [if_neg hzero, if_neg hzero]
    exact tryThen_eq (minAnswerTtlChecked_eq _ _ _) fun minTtl _ => rfl

theorem skipAnswersChecked_eq (count pos : Nat) :
    skipAnswersChecked buf count pos = .ok (skipAnswers buf count pos) := by
  induction count generalizing pos with
  | zero => rfl
  | succ count ih => exact tryThen_eq (skipRrSafeChecked_eq pos) fun next _ => ih next

theorem soaTtlChecked_eq (count pos : Nat) :
    soaTtlChecked buf count pos = .ok (soaTtl buf count pos) := by
  induction count generalizing pos with
  | zero => rfl
  | succ count ih =>
    refine tryThen_fields fun nameEnd hfits => ?_
    rw [readU16_of_lt (by omega), ok_bind, readU32_of_lt (by omega), ok_bind,
      readU16_of_lt (by omega), ok_bind]
    rw [show (u16At buf (nameEnd + 8)).toNat = rrRdlength buf nameEnd from rfl]
    simp only
    by_cases hsoa : u16At buf nameEnd = 6 ∧ rrRdlength buf nameEnd ≥ 20
    · rw [if_pos hsoa, if_pos hsoa]
      by_cases hlong : nameEnd + 10 + rrRdlength buf nameEnd - 4 + 4 > buf.length
      · rw [if_pos hlong, if_pos hlong]
        rfl
      · rw [if_neg hlong, if_neg hlong, readU32_of_lt (by omega)]
        rfl
    · rw [if_neg hsoa, if_neg hsoa, ih]

theorem negativeSoaTtlChecked_eq : negativeSoaTtlChecked buf = .ok (negativeSoaTtl buf) := by
  refine tryThen_eq skipHeaderAndQuestionChecked_eq fun pos hpos => ?_
  have hlength := length_of_skipHeaderAndQuestion hpos
  rw [readU16_of_lt (by omega), ok_bind]
  refine tryThen_eq (skipAnswersChecked_eq _ _) fun answerEnd _ => ?_
  rw [readU16_of_lt (by omega), ok_bind, soaTtlChecked_eq]

theorem extractTtlChecked_eq (negativeCacheTtl : UInt32) :
    extractTtlChecked buf negativeCacheTtl = .ok (extractTtlFromResponse buf negativeCacheTtl) := by
  unfold extractTtlChecked extractTtlFromResponse
  by_cases hshort : buf.length < 12
  · rw [if_pos hshort, if_pos hshort]
    rfl
  rw [if_neg hshort, if_neg hshort, readU16_of_lt (by omega), ok_bind, readU16_of_lt (by omega),
    ok_bind, readU16_of_lt (by omega), ok_bind]
  simp only [firstAnswerTtlChecked_eq, negativeSoaTtlChecked_eq, ok_bind]
  split_ifs
  · rfl
  · rcases firstAnswerTtl buf with e | (_ | ttl) <;> rfl
  · rcases negativeSoaTtl buf with e | (_ | ttl) <;> rfl
  · rcases negativeSoaTtl buf with e | (_ | ttl) <;> rfl
  · rfl
  · rfl

/-! ### Messages -/

theorem skipDnsName_of_nameAt {pos stop : Nat} {ls : List Bytes} (h : NameAt buf pos ls stop)
    {fuel : Nat} (hfuel : buf.length - pos < fuel) : skipDnsName buf fuel pos = .ok stop := by
  induction h generalizing fuel with
  | root hlt hzero =>
    obtain ⟨fuel, rfl⟩ : ∃ k, fuel = k + 1 := ⟨fuel - 1, by omega⟩
    rw [skipDnsName, if_neg (Nat.not_le.mpr hlt)]
    simp only [hzero, if_true]
  | @label pos stop ls hlt hpos hle hrest ih =>
    obtain ⟨fuel, rfl⟩ : ∃ k, fuel = k + 1 := ⟨fuel - 1, by omega⟩
    have hzero : byteAt buf pos ≠ 0 := by
      intro hzero
      simp [hzero] at hpos
    have hlen : ¬ byteAt buf pos > 63 := by
      rw [gt_iff_lt, UInt8.lt_iff_toNat_lt]
      exact Nat.not_lt.mpr hle
    rw [skipDnsName, if_neg (Nat.not_le.mpr hlt)]
    simp only
    rw [if_neg hzero, if_neg (not_pointer hle), if_neg hlen, ih (by omega)]
  | @pointer pos stop ls hlt hpointer htarget _ =>
    obtain ⟨fuel, rfl⟩ : ∃ k, fuel = k + 1 := ⟨fuel - 1, by omega⟩
    have hzero : byteAt buf pos ≠ 0 := by
      intro hzero
      simp [hzero] at hpointer
    rw [skipDnsName, if_neg (by omega)]
    simp only
    rw [if_neg hzero, if_pos (pointerBits hpointer), if_neg (by omega)]

theorem nameEndAt_of_nameAt {pos stop : Nat} {ls : List Bytes} (h : NameAt buf pos ls stop) :
    nameEndAt buf pos = .ok stop :=
  skipDnsName_of_nameAt h (by omega)

theorem skipQuestion_of_questionsAt {pos count stop : Nat} (h : QuestionsAt buf pos count stop) :
    skipQuestion buf count pos = .ok stop := by
  induction h with
  | nil => rfl
  | cons hname hlt hrest ih => rw [skipQuestion, nameEndAt_of_nameAt hname, ok_bind, ih]

/-- What the walker reads of a record. -/
theorem rrFields_of_recordAt {pos : Nat} {record : DnsRecord}
    (h : Framework.RecordAt buf pos record) :
    ∃ nameEnd, rrFields buf pos = .ok nameEnd ∧ u16At buf nameEnd = record.rrType ∧
      u32At buf (nameEnd + 4) = record.ttl ∧ nameEnd + 10 = record.start ∧
      nameEnd + 10 + rrRdlength buf nameEnd = record.stop ∧ record.stop ≤ buf.length := by
  obtain ⟨nameEnd, hname, htype, -, httl, hstart, hstop, hle⟩ := h
  refine ⟨nameEnd, ?_, htype.symm, httl.symm, hstart.symm, hstop.symm, hle⟩
  rw [rrFields, nameEndAt_of_nameAt hname, ok_bind, if_neg (by omega)]

theorem skipRrSafe_of_recordAt {pos : Nat} {record : DnsRecord}
    (h : Framework.RecordAt buf pos record) : skipRrSafe buf pos = .ok record.stop := by
  obtain ⟨nameEnd, hfields, -, -, -, hstop, -⟩ := rrFields_of_recordAt h
  rw [skipRrSafe, hfields, ok_bind, hstop]
  rfl

theorem skipAnswers_of_recordsAt {pos stop : Nat} {records : List DnsRecord}
    (h : RecordsAt buf pos records stop) : skipAnswers buf records.length pos = .ok stop := by
  induction h with
  | nil => rfl
  | cons hrecord hrest ih =>
    rw [List.length_cons, skipAnswers, skipRrSafe_of_recordAt hrecord, ok_bind, ih]

theorem minAnswerTtl_of_recordsAt {pos stop : Nat} {records : List DnsRecord}
    (h : RecordsAt buf pos records stop) (minTtl : UInt32) :
    minAnswerTtl buf records.length pos minTtl =
      .ok ((records.map DnsRecord.ttl).foldl min minTtl) := by
  induction h generalizing minTtl with
  | nil => rfl
  | cons hrecord hrest ih =>
    obtain ⟨nameEnd, hfields, -, httl, -⟩ := rrFields_of_recordAt hrecord
    rw [List.length_cons, minAnswerTtl, hfields, ok_bind, skipRrSafe_of_recordAt hrecord, ok_bind,
      httl, ih]
    rfl

/-- The last number of an SOA record is the last four bytes of its RDATA. -/
theorem minimum_at_end {soa : DnsRecord} {mname rname : List Bytes}
    {serial refresh retry expire minimum : UInt32}
    (h : DataAt buf soa (.soa mname rname serial refresh retry expire minimum)) :
    soa.rrType = 6 ∧ soa.start + 20 ≤ soa.stop ∧ minimum = u32At buf (soa.stop - 4) := by
  obtain ⟨htype, mnameEnd, numbers, hmname, hrname, hstop, -, -, -, -, hminimum⟩ := h
  have hstart : soa.start ≤ numbers := by
    rcases hmname.ends with ⟨hm, -⟩ | ⟨hm, -⟩ <;>
      rcases hrname.ends with ⟨hr, -⟩ | ⟨hr, -⟩ <;> omega
  refine ⟨htype, by omega, ?_⟩
  rw [hminimum, hstop, show numbers + 20 - 4 = numbers + 16 by omega]

/-- The first SOA record of a section. -/
theorem soaTtl_of_recordsAt {before after : List DnsRecord} {soa : DnsRecord}
    (hbefore : ∀ record ∈ before, record.rrType ≠ 6) {mname rname : List Bytes}
    {serial refresh retry expire minimum : UInt32}
    (hsoa : DataAt buf soa (.soa mname rname serial refresh retry expire minimum)) {pos stop : Nat}
    (h : RecordsAt buf pos (before ++ soa :: after) stop) :
    soaTtl buf (before ++ soa :: after).length pos = .ok (some (min soa.ttl minimum)) := by
  induction before generalizing pos with
  | nil =>
    obtain ⟨htype, hlong, hminimum⟩ := minimum_at_end hsoa
    cases h with
    | cons hrecord hrest =>
      obtain ⟨nameEnd, hfields, htype', httl, hstart, hstop, hle⟩ := rrFields_of_recordAt hrecord
      rw [List.nil_append, List.length_cons, soaTtl, hfields, ok_bind]
      simp only
      rw [if_pos ⟨htype'.trans htype, by omega⟩, hstop, if_neg (by omega), httl, ← hminimum]
      rfl
  | cons record before ih =>
    obtain ⟨hfirst, hrest⟩ := List.forall_mem_cons.mp hbefore
    cases h with
    | cons hrecord htail =>
      obtain ⟨nameEnd, hfields, htype, -, -, hstop, -⟩ := rrFields_of_recordAt hrecord
      rw [List.cons_append, List.length_cons, soaTtl, hfields, ok_bind]
      simp only
      rw [if_neg fun hboth => hfirst (htype.symm.trans hboth.1), hstop, ih hrest htail]

/-- The least TTL of some records. -/
structure LeastTtl (records : List DnsRecord) (ttl : UInt32) : Prop where
  attained : ∃ record ∈ records, record.ttl = ttl
  least : ∀ record ∈ records, ttl ≤ record.ttl

theorem foldl_min_spec (l : List UInt32) (start : UInt32) :
    (l.foldl min start = start ∨ l.foldl min start ∈ l) ∧ l.foldl min start ≤ start ∧
      ∀ x ∈ l, l.foldl min start ≤ x := by
  induction l generalizing start with
  | nil => exact ⟨.inl rfl, UInt32.le_refl _, by simp⟩
  | cons x l ih =>
    obtain ⟨hmem, hle, hall⟩ := ih (min start x)
    rw [List.foldl_cons]
    have hmin :
        (min start x = start ∨ min start x = x) ∧ min start x ≤ start ∧ min start x ≤ x := by
      by_cases h : start ≤ x
      · rw [show min start x = start from if_pos h]
        exact ⟨.inl rfl, UInt32.le_refl _, h⟩
      · rw [show min start x = x from if_neg h]
        exact ⟨.inr rfl, UInt32.le_of_lt (UInt32.not_le.mp h), UInt32.le_refl _⟩
    refine ⟨?_, UInt32.le_trans hle hmin.2.1, ?_⟩
    · rcases hmem with heq | hmem
      · rw [heq]
        rcases hmin.1 with heq' | heq' <;> simp [heq']
      · exact .inr (List.mem_cons_of_mem _ hmem)
    · intro y hy
      rcases List.mem_cons.mp hy with rfl | hy
      · exact UInt32.le_trans hle hmin.2.2
      · exact hall y hy

theorem leastTtl_foldl {records : List DnsRecord} (hne : records ≠ []) :
    LeastTtl records ((records.map DnsRecord.ttl).foldl min 0xFFFFFFFF) := by
  obtain ⟨hmem, -, hall⟩ := foldl_min_spec (records.map DnsRecord.ttl) 0xFFFFFFFF
  have hleast : ∀ record ∈ records,
      (records.map DnsRecord.ttl).foldl min 0xFFFFFFFF ≤ record.ttl :=
    fun record hrecord => hall _ (List.mem_map_of_mem hrecord)
  refine ⟨?_, hleast⟩
  rcases hmem with heq | hmem
  · -- all are the largest there is
    obtain ⟨record, hrecord⟩ := List.exists_mem_of_ne_nil _ hne
    refine ⟨record, hrecord, UInt32.le_antisymm ?_ (hleast record hrecord)⟩
    rw [heq, UInt32.le_iff_toNat_le]
    exact Nat.le_of_lt_succ record.ttl.toNat_lt
  · obtain ⟨record, hrecord, httl⟩ := List.mem_map.mp hmem
    exact ⟨record, hrecord, httl⟩

/-- The RCODE of a message. -/
def rcodeOf (m : Bytes) : UInt16 := u16At m 2 &&& 0x000F

section sections
variable {answers authority additional : List DnsRecord}

theorem firstAnswerTtl_of_hasSections (h : HasSections buf answers authority additional)
    (hne : answers ≠ []) :
    firstAnswerTtl buf = .ok (some ((answers.map DnsRecord.ttl).foldl min 0xFFFFFFFF)) := by
  obtain ⟨hlen, answerStart, authorityStart, additionalStart, hquestions, hanswers,
    hancount, -⟩ := h
  have hcount : answers.length ≠ 0 := fun hzero => hne (List.length_eq_zero_iff.mp hzero)
  rw [firstAnswerTtl, skipHeaderAndQuestion, if_neg (Nat.not_lt.mpr hlen),
    skipQuestion_of_questionsAt hquestions, ok_bind, ← hancount, if_neg hcount,
    minAnswerTtl_of_recordsAt hanswers]
  rfl

theorem negativeSoaTtl_of_hasSections {before after : List DnsRecord} {soa : DnsRecord}
    (h : HasSections buf answers (before ++ soa :: after) additional)
    (hbefore : ∀ record ∈ before, record.rrType ≠ 6) {mname rname : List Bytes}
    {serial refresh retry expire minimum : UInt32}
    (hsoa : DataAt buf soa (.soa mname rname serial refresh retry expire minimum)) :
    negativeSoaTtl buf = .ok (some (min soa.ttl minimum)) := by
  obtain ⟨hlen, answerStart, authorityStart, additionalStart, hquestions, hanswers, hancount,
    hauthority, hnscount, -⟩ := h
  rw [negativeSoaTtl, skipHeaderAndQuestion, if_neg (Nat.not_lt.mpr hlen),
    skipQuestion_of_questionsAt hquestions, ok_bind, ← hancount,
    skipAnswers_of_recordsAt hanswers, ok_bind, ← hnscount,
    soaTtl_of_recordsAt hbefore hsoa hauthority]

end sections

/-- **Lifetime of a response.** The computation reads within the response, whatever its bytes are.
    It is zero for SERVFAIL and REFUSED, for other messages the least TTL of the answers, and
    without answers what the SOA record of the authority section allows. -/
theorem ttl_of_response (buf : Bytes) (negativeCacheTtl : UInt32) :
    extractTtlChecked buf negativeCacheTtl = .ok (extractTtlFromResponse buf negativeCacheTtl) ∧
    ∀ answers authority additional, HasSections buf answers authority additional →
      ((rcodeOf buf = 2 ∨ rcodeOf buf = 5) → extractTtlFromResponse buf negativeCacheTtl = 0) ∧
      (rcodeOf buf ≠ 2 → rcodeOf buf ≠ 5 →
        (answers ≠ [] → LeastTtl answers (extractTtlFromResponse buf negativeCacheTtl)) ∧
        (answers = [] → ∀ before soa after mname rname serial refresh retry expire minimum,
          authority = before ++ soa :: after → (∀ record ∈ before, record.rrType ≠ 6) →
          DataAt buf soa (.soa mname rname serial refresh retry expire minimum) →
          extractTtlFromResponse buf negativeCacheTtl =
            min (min soa.ttl minimum) negativeCacheTtl)) := by
  refine ⟨extractTtlChecked_eq negativeCacheTtl, ?_⟩
  intro answers authority additional hsections
  obtain ⟨hlen, -, -, -, -, -, hancount, -, hnscount, -⟩ := id hsections
  unfold extractTtlFromResponse
  rw [if_neg (Nat.not_lt.mpr hlen)]
  simp only
  rw [show u16At buf 2 &&& 0x000F = rcodeOf buf from rfl]
  refine ⟨fun hfailed => if_pos hfailed, fun hservfail hrefused => ?_⟩
  rw [if_neg (not_or.mpr ⟨hservfail, hrefused⟩)]
  refine ⟨fun hne => ?_, ?_⟩
  · have hpos : u16At buf 6 > 0 := by
      rw [gt_iff_lt, UInt16.lt_iff_toNat_lt, ← hancount]
      exact List.length_pos_iff.mpr hne
    rw [if_pos hpos, firstAnswerTtl_of_hasSections hsections hne]
    exact leastTtl_foldl hne
  · rintro rfl before soa after mname rname serial refresh retry expire minimum rfl hbefore hsoa
    have hzero : ¬ u16At buf 6 > 0 := by
      rw [gt_iff_lt, UInt16.lt_iff_toNat_lt, ← hancount]
      exact Nat.lt_irrefl 0
    have hpos : u16At buf 8 > 0 := by
      rw [gt_iff_lt, UInt16.lt_iff_toNat_lt, ← hnscount, List.length_append, List.length_cons]
      exact Nat.succ_pos _
    rw [if_neg hzero, if_pos (.inr hpos), negativeSoaTtl_of_hasSections hsections hbefore hsoa]

/-- A question for the address of `a`, and two answers whose owner points to its name: the first
    lives for five minutes, the second for one. -/
def twoAnswers : Bytes :=
  [0, 1, 0x84, 0, 0, 1, 0, 2, 0, 0, 0, 0] ++ [1, 97, 0, 0, 1, 0, 1] ++
    [0xC0, 12, 0, 1, 0, 1, 0, 0, 1, 44, 0, 4, 192, 0, 2, 1] ++
    [0xC0, 12, 0, 1, 0, 1, 0, 0, 0, 60, 0, 4, 192, 0, 2, 2]

def twoAnswerRecords : List DnsRecord := [⟨[[97]], 1, 1, 300, 31, 35⟩, ⟨[[97]], 1, 1, 60, 47, 51⟩]

theorem hasSections_twoAnswers : HasSections twoAnswers twoAnswerRecords [] [] := by
  have hroot : NameAt twoAnswers 14 [] 15 := .root (by decide) (by decide)
  have hname : NameAt twoAnswers 12 [[97]] 15 :=
    @NameAt.of_label twoAnswers 12 15 [] [97] (by decide) (by decide) (by decide) (by decide)
      (by decide) hroot
  -- both owners point to the name of the question
  have howner : ∀ pos, pos + 1 < twoAnswers.length → byteAt twoAnswers pos = 0xC0 →
      byteAt twoAnswers (pos + 1) = 12 → NameAt twoAnswers pos [[97]] (pos + 2) := by
    intro pos hlt hfirst hsecond
    have htarget : NameAt twoAnswers (nameOffset (byteAt twoAnswers pos)
        (byteAt twoAnswers (pos + 1))) [[97]] 15 := by
      rw [hfirst, hsecond]
      exact hname
    exact .pointer hlt (by rw [hfirst]; decide) htarget
  have hfirst := howner 19 (by decide) (by decide) (by decide)
  have hsecond := howner 35 (by decide) (by decide) (by decide)
  have hquestions : QuestionsAt twoAnswers 12 1 19 := .cons hname (by decide) .nil
  have hanswers : RecordsAt twoAnswers 19 twoAnswerRecords 51 :=
    .cons ⟨21, hfirst, by decide⟩ (.cons ⟨37, hsecond, by decide⟩ .nil)
  exact ⟨by decide, 19, 51, 51, hquestions, hanswers, by decide, .nil, by decide, .nil, by decide⟩

theorem twoAnswers_lifetime :
    extractTtlFromResponse twoAnswers 3600 = 60 ∧
      LeastTtl twoAnswerRecords (extractTtlFromResponse twoAnswers 3600) := by
  refine ⟨by decide, ?_⟩
  exact (((ttl_of_response twoAnswers 3600).2 _ _ _ hasSections_twoAnswers).2 (by decide)
    (by decide)).1 (by simp [twoAnswerRecords])

end Synvoid.Dns
