import Synvoid.Dns.ZoneUpdate
import Synvoid.Framework.Transition

/-! # Versions of a zone over a run of updates

    A run starts at a zone whose SOA record carries its serial and whose
    history holds what was served, and each step is an update that is answered
    with NOERROR and has no SOA record among its changes. A log remembers which
    records were served under which serial.

    `Coherent` is what incremental transfers rely on: the SOA record carries
    the serial, and the history holds for a serial the records of that time.
    The SOA record is not rewritten with the serial, and the entry of the
    history is made from the changed records, so an update keeps the zone
    coherent just when it leaves serial and records as they are
    (`run_coherent_iff`).
-/

namespace Synvoid.Dns

open Synvoid.Framework

/-! ### Same records -/

/-- Equality of hash maps. -/
def SameRecords (records records' : ZoneRecords) : Prop :=
  ∀ key, records.lookup key = records'.lookup key

theorem SameRecords.refl (records : ZoneRecords) : SameRecords records records := fun _ => rfl

theorem SameRecords.symm {records records' : ZoneRecords} (h : SameRecords records records') :
    SameRecords records' records := fun key => (h key).symm

theorem SameRecords.trans {r₁ r₂ r₃ : ZoneRecords} (h : SameRecords r₁ r₂)
    (h' : SameRecords r₂ r₃) : SameRecords r₁ r₃ := fun key => (h key).trans (h' key)

/-! ### The SOA record -/

/-- The serial in the text of an SOA record. -/
def soaSerial (soa : DnsZoneRecord) : Option UInt32 :=
  (splitWhitespace soa.value)[2]?.bind parseU32

/-- The serial that the served SOA record carries. -/
def Zone.carriedSerial (lib : Externals) (zone : Zone) : Option UInt32 :=
  (zone.getSoa lib).bind soaSerial

theorem Zone.carriedSerial_congr {lib : Externals} {zone zone' : Zone}
    (horigin : zone'.origin = zone.origin)
    (hsoa : ∀ name, zone'.records.lookup (name, .soa) = zone.records.lookup (name, .soa)) :
    zone'.carriedSerial lib = zone.carriedSerial lib := by
  unfold Zone.carriedSerial Zone.getSoa Zone.lowerOrigin
  rw [horigin, hsoa, hsoa]

/-- No change is about an SOA record. -/
def LeavesSoa (updates : List UpdateRecord) : Prop :=
  ∀ update ∈ updates, RecordType.ofCode update.rtype ≠ .soa

theorem lookup_applyRecord {records : ZoneRecords} {update : UpdateRecord} {key : Str × RecordType}
    (h : key ≠ update.key) : (applyRecord records update).lookup key = records.lookup key := by
  unfold applyRecord
  split
  · exact AList.lookup_insert_ne h
  · split
    · exact AList.lookup_erase_ne h
    · rfl

theorem lookup_applyRecords_soa {updates : List UpdateRecord} (h : LeavesSoa updates)
    (records : ZoneRecords) (name : Str) :
    (applyRecords records updates).lookup (name, .soa) = records.lookup (name, .soa) := by
  induction updates generalizing records with
  | nil => rfl
  | cons update updates ih =>
    obtain ⟨hupdate, hrest⟩ := List.forall_mem_cons.mp h
    have hkey : (name, RecordType.soa) ≠ update.key := fun heq =>
      hupdate (congrArg Prod.snd heq).symm
    calc (applyRecords (applyRecord records update) updates).lookup (name, .soa)
        = (applyRecord records update).lookup (name, .soa) := ih hrest _
      _ = records.lookup (name, .soa) := lookup_applyRecord hkey

/-! ### The new serial -/

/-- A new serial is a new one, unless it is 1 for the second time. -/
theorem incrementSerial_eq_self_iff (current : UInt32) (now : UInt64) :
    incrementSerialRfc1982 current now = current ↔
      current = 1 ∧ now.toUInt32 ≥ 0x80000000 := by
  unfold incrementSerialRfc1982
  generalize now.toUInt32 = t
  dsimp only
  split
  · next hhalf => grind
  · next hhalf =>
    split
    · next hzero => grind
    · split
      · next hlater => grind
      · next hlater => grind

/-! ### Runs of updates -/

/-- An update message as it reaches the zone, with the readings of the clock. -/
structure UpdateStep where
  prerequisites : List UpdatePrerequisite
  updates : List UpdateRecord
  now : UInt64
  timestamp : UInt64

/-- A zone, and which records it has served under which serial. -/
structure ServedZone where
  zone : VersionedZone
  served : List (UInt32 × ZoneRecords)

namespace ServedZone

variable (lib : Externals)

/-- The state after an update that stores a zone, or none. -/
def afterUpdate (s : ServedZone) (label : UpdateStep) : ServedZone :=
  match (s.zone.update lib label.prerequisites label.updates label.now label.timestamp).1 with
  | none => s
  | some zone => ⟨zone, s.served ++ [(zone.serial, zone.records)]⟩

/-- The update is answered with NOERROR and does not touch the SOA record. -/
def Accepted (s : ServedZone) (label : UpdateStep) : Prop :=
  (s.zone.update lib label.prerequisites label.updates label.now label.timestamp).2 =
    updateRcodeNoError ∧ LeavesSoa label.updates

/-- `records` is what the zone served under `serial`, at all times. -/
def ServedUnder (s : ServedZone) (serial : UInt32) (records : ZoneRecords) : Prop :=
  (∃ records', (serial, records') ∈ s.served) ∧
    ∀ records', (serial, records') ∈ s.served → SameRecords records' records

/-- The SOA record carries the serial, and the version of an earlier serial holds what
    was served under it. -/
def Coherent (s : ServedZone) : Prop :=
  s.zone.carriedSerial lib = some s.zone.serial ∧
    ∀ serial entry, s.zone.getPreviousVersion serial = some entry →
      s.ServedUnder serial entry.records

/-- A zone that is coherent in all entries of its history, and that has served nothing but
    its records under its serial. -/
structure Tracked (s : ServedZone) : Prop where
  carries : s.zone.carriedSerial lib = some s.zone.serial
  current : s.ServedUnder s.zone.serial s.zone.records
  entries : ∀ entry ∈ s.zone.history, s.ServedUnder entry.serial entry.records

theorem Tracked.coherent {s : ServedZone} (h : s.Tracked lib) : s.Coherent lib := by
  refine ⟨h.carries, fun serial entry hfind => ?_⟩
  obtain rfl : entry.serial = serial := by simpa using List.find?_some hfind
  exact h.entries entry (List.mem_of_find?_eq_some hfind)

/-- The updates of one zone. -/
def updateSystem : System ServedZone UpdateStep where
  init := Tracked lib
  step s label s' := s.Accepted lib label ∧ s' = s.afterUpdate lib label

/-- The update has no changes, or they change nothing and the serial stays 1. -/
def ChangesNothing (s : ServedZone) (label : UpdateStep) : Prop :=
  label.updates = [] ∨
    s.zone.serial = 1 ∧ label.now.toUInt32 ≥ 0x80000000 ∧
      SameRecords (applyRecords s.zone.records label.updates) s.zone.records

/-! ### One update -/

/-- An accepted update either has no changes and stores nothing, or stores the changed zone. -/
theorem afterUpdate_cases {s : ServedZone} {label : UpdateStep} (h : s.Accepted lib label) :
    (label.updates = [] ∧ s.afterUpdate lib label = s) ∨
      (label.updates ≠ [] ∧ s.afterUpdate lib label =
        ⟨s.zone.changed label.updates label.now label.timestamp, s.served ++
          [((s.zone.changed label.updates label.now label.timestamp).serial,
            applyRecords s.zone.records label.updates)]⟩) := by
  obtain ⟨hrcode, -⟩ := h
  unfold afterUpdate
  unfold VersionedZone.update at hrcode ⊢
  split at hrcode
  · exact absurd hrcode (by decide)
  · next hprereq =>
    rw [if_neg hprereq]
    by_cases hempty : label.updates = []
    · exact .inl ⟨hempty, by rw [if_pos hempty]⟩
    · rw [if_neg hempty] at hrcode ⊢
      refine .inr ⟨hempty, ?_⟩
      dsimp only at hrcode ⊢
      split at hrcode
      · exact absurd hrcode (by decide)
      · rfl

/-- What was served before stays what was served under a serial, if the new records under it
    are the same. -/
theorem ServedUnder.snoc {s : ServedZone} {serial serial' : UInt32} {records records' : ZoneRecords}
    (h : s.ServedUnder serial records) (hsame : serial' = serial → SameRecords records' records)
    (zone : VersionedZone) :
    (⟨zone, s.served ++ [(serial', records')]⟩ : ServedZone).ServedUnder serial records := by
  obtain ⟨⟨before, hbefore⟩, hall⟩ := h
  refine ⟨⟨before, List.mem_append_left _ hbefore⟩, fun later hmem => ?_⟩
  rcases List.mem_append.mp hmem with hmem | hmem
  · exact hall later hmem
  · obtain ⟨rfl, rfl⟩ : serial = serial' ∧ later = records' := by simpa using hmem
    exact hsame rfl

theorem ServedUnder.unique {s : ServedZone} {serial : UInt32} {records records' : ZoneRecords}
    (h : s.ServedUnder serial records) (h' : s.ServedUnder serial records') :
    SameRecords records records' := by
  obtain ⟨served, hserved⟩ := h.1
  exact (h.2 served hserved).symm.trans (h'.2 served hserved)

section step
variable {lib : Externals} {s : ServedZone} {updates : List UpdateRecord} {now timestamp : UInt64}

theorem carriedSerial_changed (h : LeavesSoa updates) :
    (s.zone.changed updates now timestamp).carriedSerial lib = s.zone.carriedSerial lib :=
  Zone.carriedSerial_congr rfl (lookup_applyRecords_soa h s.zone.records)

theorem mem_history_changed {entry : ZoneHistory}
    (h : entry ∈ (s.zone.changed updates now timestamp).history) :
    entry ∈ s.zone.history ∨
      entry = ⟨s.zone.serial, applyRecords s.zone.records updates, timestamp⟩ := by
  rcases List.mem_append.mp h with h | h
  · left
    split at h
    · exact List.mem_of_mem_tail h
    · exact h
  · exact .inr (List.mem_singleton.mp h)

/-- The history of the changed zone has a version for the serial before. -/
theorem previousVersion_changed (s : ServedZone) (updates : List UpdateRecord)
    (now timestamp : UInt64) :
    ∃ entry, (s.zone.changed updates now timestamp).getPreviousVersion s.zone.serial =
      some entry := by
  apply Option.isSome_iff_exists.mp
  rw [VersionedZone.getPreviousVersion, List.find?_isSome]
  exact ⟨⟨s.zone.serial, applyRecords s.zone.records updates, timestamp⟩,
    List.mem_append_right _ (List.mem_singleton_self _), by simp⟩

/-- The state after changes. -/
def afterChanges (s : ServedZone) (updates : List UpdateRecord) (now timestamp : UInt64) :
    ServedZone where
  zone := s.zone.changed updates now timestamp
  served := s.served ++
    [((s.zone.changed updates now timestamp).serial, applyRecords s.zone.records updates)]

/-- Changes that leave a zone coherent leave serial and records as they are: the SOA record
    still carries the old serial, under which the old and the new records were served. -/
theorem same_of_coherent (hs : s.Tracked lib) (hsoa : LeavesSoa updates)
    (h : (s.afterChanges updates now timestamp).Coherent lib) :
    incrementSerialRfc1982 s.zone.serial now = s.zone.serial ∧
      SameRecords (applyRecords s.zone.records updates) s.zone.records := by
  obtain ⟨hcarries, hversions⟩ := h
  have hserial : incrementSerialRfc1982 s.zone.serial now = s.zone.serial := by
    have hboth : some s.zone.serial = some (incrementSerialRfc1982 s.zone.serial now) :=
      (hs.carries.symm.trans (carriedSerial_changed hsoa).symm).trans hcarries
    exact (Option.some.inj hboth).symm
  refine ⟨hserial, ?_⟩
  obtain ⟨entry, hentry⟩ := previousVersion_changed s updates now timestamp
  obtain ⟨-, hall⟩ := hversions s.zone.serial entry hentry
  obtain ⟨before, hbefore⟩ := hs.current.1
  have hold : SameRecords before entry.records := hall before (List.mem_append_left _ hbefore)
  have hnew : SameRecords (applyRecords s.zone.records updates) entry.records := by
    refine hall _ (List.mem_append_right _ ?_)
    rw [List.mem_singleton, Prod.mk.injEq]
    exact ⟨hserial.symm, rfl⟩
  exact (hnew.trans hold.symm).trans (hs.current.2 before hbefore)

theorem tracked_of_same (hs : s.Tracked lib) (hsoa : LeavesSoa updates)
    (hserial : incrementSerialRfc1982 s.zone.serial now = s.zone.serial)
    (hsame : SameRecords (applyRecords s.zone.records updates) s.zone.records) :
    (s.afterChanges updates now timestamp).Tracked lib := by
  have hkeeps : ∀ {serial records}, s.ServedUnder serial records →
      (s.afterChanges updates now timestamp).ServedUnder serial records := by
    intro serial records hunder
    refine hunder.snoc (fun heq => ?_) _
    obtain rfl : s.zone.serial = serial := hserial.symm.trans heq
    exact hsame.trans (hs.current.unique hunder)
  have hcurrent : s.ServedUnder s.zone.serial (applyRecords s.zone.records updates) :=
    ⟨hs.current.1, fun records hmem => (hs.current.2 records hmem).trans hsame.symm⟩
  constructor
  · calc (s.zone.changed updates now timestamp).carriedSerial lib
        = some s.zone.serial := (carriedSerial_changed hsoa).trans hs.carries
      _ = some (incrementSerialRfc1982 s.zone.serial now) := by rw [hserial]
  · have hnow : (s.afterChanges updates now timestamp).zone.serial = s.zone.serial := hserial
    rw [hnow]
    exact hkeeps hcurrent
  · intro entry hentry
    rcases mem_history_changed hentry with hold | rfl
    · exact hkeeps (hs.entries entry hold)
    · exact hkeeps hcurrent

end step

/-- What one update does to a coherent zone. -/
theorem afterUpdate_coherent_iff {lib : Externals} {s : ServedZone} {label : UpdateStep}
    (hs : s.Tracked lib) (h : s.Accepted lib label) :
    ((s.afterUpdate lib label).Coherent lib ↔ s.ChangesNothing label) ∧
      ((s.afterUpdate lib label).Coherent lib → (s.afterUpdate lib label).Tracked lib) := by
  rcases afterUpdate_cases lib h with ⟨hempty, hafter⟩ | ⟨hne, hafter⟩
  · rw [hafter]
    exact ⟨iff_of_true hs.coherent (.inl hempty), fun _ => hs⟩
  · have hsame : (s.afterUpdate lib label).Coherent lib →
        incrementSerialRfc1982 s.zone.serial label.now = s.zone.serial ∧
          SameRecords (applyRecords s.zone.records label.updates) s.zone.records := by
      rw [hafter]
      exact same_of_coherent hs h.2
    have htracked : incrementSerialRfc1982 s.zone.serial label.now = s.zone.serial →
        SameRecords (applyRecords s.zone.records label.updates) s.zone.records →
          (s.afterUpdate lib label).Tracked lib := by
      rw [hafter]
      exact tracked_of_same hs h.2
    refine ⟨⟨fun hcoherent => ?_, fun hnothing => ?_⟩, fun hcoherent => ?_⟩
    · obtain ⟨hserial, hrecords⟩ := hsame hcoherent
      obtain ⟨hone, hlate⟩ := (incrementSerial_eq_self_iff _ _).mp hserial
      exact .inr ⟨hone, hlate, hrecords⟩
    · rcases hnothing with hempty | ⟨hone, hlate, hrecords⟩
      · exact absurd hempty hne
      · exact (htracked ((incrementSerial_eq_self_iff _ _).mpr ⟨hone, hlate⟩) hrecords).coherent
    · obtain ⟨hserial, hrecords⟩ := hsame hcoherent
      exact htracked hserial hrecords

/-! ### Whole runs -/

/-- **Coherence of versions.** The states of a run of accepted updates are all coherent just
    when each update changes nothing. -/
theorem run_coherent_iff (lib : Externals) {run : List (ServedZone × UpdateStep)} {s : ServedZone}
    (h : (updateSystem lib).Exec run s) :
    (∀ t ∈ run.map Prod.fst ++ [s], t.Coherent lib) ↔
      ∀ step ∈ run, step.1.ChangesNothing step.2 := by
  refine System.Exec.states_iff_of (Coherent lib) (Tracked lib) ChangesNothing
    (fun _ hinit => ⟨Tracked.coherent lib hinit, hinit⟩) ?_ h
  rintro s label _ hs ⟨haccepted, rfl⟩
  exact afterUpdate_coherent_iff hs haccepted

/-! ### Two runs -/

/-- A zone with an SOA record and one address. -/
def exampleZone : VersionedZone where
  origin := "example.com".toList
  records := Table.collect
    [((apex, .soa), [⟨apex, .soa, "ns1.example.com. admin.example.com. 1 3600 600 86400 300".toList,
        300, none⟩]),
      (("www.example.com".toList, .a),
        [⟨"www.example.com".toList, .a, "1.2.3.4".toList, 300, none⟩])]
  kskKey := none
  zskKey := none
  dnskeyTtl := none
  nsec3Enabled := false
  nsecEnabled := false
  nsec3param := none
  serial := 1
  history := []

/-- The zone as it was loaded. -/
def exampleStart : ServedZone where
  zone := exampleZone
  served := [(1, exampleZone.records)]

theorem exampleStart_tracked : exampleStart.Tracked asciiExternals where
  carries := by decide +kernel
  current := by
    refine ⟨⟨_, List.mem_singleton_self _⟩, fun records hmem => ?_⟩
    obtain rfl : records = exampleZone.records :=
      congrArg Prod.snd (List.mem_singleton.mp hmem)
    exact SameRecords.refl _
  entries := fun _ hmem => nomatch hmem

/-- An address record for `www.example.com`. -/
def addressUpdate (address : Bytes) : UpdateRecord where
  name := "www.example.com".toList
  rtype := 1
  rclass := 1
  ttl := 300
  rdata := address

/-- An update that only asks whether the name has an address. -/
def askStep : UpdateStep where
  prerequisites := [⟨"www.example.com".toList, 1, [], .exists_⟩]
  updates := []
  now := 1700000000
  timestamp := 1700000000

/-- An update that sets the address. -/
def setStep (address : Bytes) (now : UInt64) : UpdateStep where
  prerequisites := []
  updates := [addressUpdate address]
  now := now
  timestamp := now

theorem leavesSoa_setStep (address : Bytes) (now : UInt64) :
    LeavesSoa (setStep address now).updates := by
  intro update hmem
  obtain rfl : update = addressUpdate address := by simpa [setStep] using hmem
  exact (by decide : RecordType.ofCode 1 ≠ .soa)

theorem same_address : SameRecords
    (applyRecords exampleZone.records (setStep [1, 2, 3, 4] 2200000000).updates)
    exampleZone.records := by
  intro key
  change (exampleZone.records.insert (addressUpdate [1, 2, 3, 4]).key
    [(addressUpdate [1, 2, 3, 4]).zoneRecord]).lookup key = _
  rw [Table.lookup_insert_eq]
  split
  · next h =>
    rw [h]
    rfl
  · rfl

/-- A question and an address that is set again: the zone stays coherent. -/
theorem coherent_without_changes :
    (updateSystem asciiExternals).Exec
        [(exampleStart, askStep), (exampleStart, setStep [1, 2, 3, 4] 2200000000)]
        (exampleStart.afterUpdate asciiExternals (setStep [1, 2, 3, 4] 2200000000)) ∧
      (exampleStart.afterUpdate asciiExternals (setStep [1, 2, 3, 4] 2200000000)).Coherent
        asciiExternals := by
  have hask : (updateSystem asciiExternals).step exampleStart askStep exampleStart :=
    ⟨⟨by decide +kernel, fun _ hmem => nomatch hmem⟩, rfl⟩
  have hset : (updateSystem asciiExternals).step exampleStart (setStep [1, 2, 3, 4] 2200000000)
      (exampleStart.afterUpdate asciiExternals (setStep [1, 2, 3, 4] 2200000000)) :=
    ⟨⟨by decide +kernel, leavesSoa_setStep _ _⟩, rfl⟩
  have hrun := ((System.Exec.nil exampleStart_tracked).snoc hask).snoc hset
  refine ⟨hrun, (run_coherent_iff asciiExternals hrun).mpr ?_ _ (by simp)⟩
  intro step hmem
  rcases List.mem_cons.mp hmem with rfl | hmem
  · exact .inl rfl
  · obtain rfl := List.mem_singleton.mp hmem
    exact .inr ⟨rfl, by decide, same_address⟩

/-- Another address: the zone has a new serial, its SOA record the old one, and the history
    has the new address for the old serial. -/
theorem new_address_incoherent :
    ∃ s', (updateSystem asciiExternals).Exec [(exampleStart, setStep [5, 6, 7, 8] 1700000000)] s' ∧
      s'.zone.serial = 1700000000 ∧ s'.zone.carriedSerial asciiExternals = some 1 ∧
      (∃ entry, s'.zone.getPreviousVersion 1 = some entry ∧
        ¬ SameRecords entry.records exampleZone.records) ∧
      ¬ s'.Coherent asciiExternals := by
  have hset : (updateSystem asciiExternals).step exampleStart (setStep [5, 6, 7, 8] 1700000000)
      (exampleStart.afterUpdate asciiExternals (setStep [5, 6, 7, 8] 1700000000)) :=
    ⟨⟨by decide +kernel, leavesSoa_setStep _ _⟩, rfl⟩
  have hserial : (exampleStart.afterUpdate asciiExternals
      (setStep [5, 6, 7, 8] 1700000000)).zone.serial = 1700000000 := by decide +kernel
  have hcarries : (exampleStart.afterUpdate asciiExternals
      (setStep [5, 6, 7, 8] 1700000000)).zone.carriedSerial asciiExternals = some 1 := by
    decide +kernel
  refine ⟨_, (System.Exec.nil exampleStart_tracked).snoc hset, hserial, hcarries, ?_, ?_⟩
  · refine ⟨⟨1, applyRecords exampleZone.records [addressUpdate [5, 6, 7, 8]], 1700000000⟩, rfl, ?_⟩
    intro hsame
    have hvalue := congrArg (Option.map (List.map DnsZoneRecord.value))
      (hsame ("www.example.com".toList, .a))
    revert hvalue
    decide +kernel
  · intro hcoherent
    rw [Coherent, hserial, hcarries] at hcoherent
    exact absurd hcoherent.1 (by decide)

end ServedZone

end Synvoid.Dns
