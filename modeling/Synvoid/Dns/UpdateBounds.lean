import Mathlib.Logic.Relation
import Synvoid.Dns.Update

/-! # When update and TSIG parsing stay in range

    The walkers of `update.rs` and `tsig.rs` check most positions, but not all:
    the second byte of a compression pointer, the fields behind an owner name and
    behind a MAC, the fixed header in `handle_update`, and the sum of two 16-bit
    counters. Here is the exact condition on the message under which none of
    these is out of range.

    The condition follows names and records as the lengths in the message lay
    them out. A name fits if the walk through it meets no pointer whose first
    byte is the last byte of the message (`OwnerFits`).
-/

namespace Synvoid.Dns

open Synvoid.Framework

/-! ## Section 1: Names -/

/-- One step of the walk through a name, from a number of jumps and a position:
    over a label, or to the target of a pointer. -/
inductive NameNext (q : Bytes) : Nat × Nat → Nat × Nat → Prop where
  | label {jumps pos : Nat} : pos < q.length → byteAt q pos ≠ 0 →
      isPointer (byteAt q pos) = false → pos + 1 + (byteAt q pos).toNat ≤ q.length →
      NameNext q (jumps, pos) (jumps, pos + 1 + (byteAt q pos).toNat)
  | jump {jumps pos : Nat} : pos < q.length → isPointer (byteAt q pos) = true → jumps < 10 →
      NameNext q (jumps, pos)
        (jumps + 1, pointerOffset (byteAt q pos) (byteAt q (pos + 1)))

/-- A pointer that is followed here has its second byte in the message. -/
def PointerFits (q : Bytes) (s : Nat × Nat) : Prop :=
  s.1 < 10 → s.2 < q.length → isPointer (byteAt q s.2) = true → s.2 + 1 < q.length

def WalkFits (q : Bytes) (s : Nat × Nat) : Prop :=
  ∀ s', Relation.ReflTransGen (NameNext q) s s' → PointerFits q s'

/-- The walk through the name at `pos` meets no pointer that is cut off by the
    end of the message. -/
def OwnerFits (q : Bytes) (pos : Nat) : Prop := WalkFits q (0, pos)

/-- Where the walk through a name ends; `none` if it is not a name. -/
def nameEndLoop (q : Bytes) : Nat → Nat → Nat → Option Nat
  | 0, _, pos => some pos
  | fuel + 1, jumps, pos =>
      if pos < q.length then
        if byteAt q pos = 0 then some (pos + 1)
        else if isPointer (byteAt q pos) then
          if jumps + 1 > 10 then none
          else nameEndLoop q fuel (jumps + 1)
            (pointerOffset (byteAt q pos) (byteAt q (pos + 1)))
        else if pos + 1 + (byteAt q pos).toNat > q.length then none
        else nameEndLoop q fuel jumps (pos + 1 + (byteAt q pos).toNat)
      else some pos

def nameEnd (q : Bytes) (pos : Nat) : Option Nat :=
  nameEndLoop q (11 * (q.length + 1) + 1) 0 pos

theorem isPointer_zero : isPointer 0 = false := by decide

theorem walkFits_head {q : Bytes} {s s' : Nat × Nat} (hnext : NameNext q s s')
    (honly : ∀ t, NameNext q s t → t = s') :
    WalkFits q s ↔ PointerFits q s ∧ WalkFits q s' := by
  constructor
  · intro hfits
    exact ⟨hfits s .refl, fun t ht => hfits t (.head hnext ht)⟩
  · rintro ⟨hhead, hrest⟩ t ht
    rcases Relation.ReflTransGen.cases_head ht with rfl | ⟨u, hu, htail⟩
    · exact hhead
    · rw [honly u hu] at htail
      exact hrest t htail

theorem walkFits_end {q : Bytes} {s : Nat × Nat} (hend : ∀ t, ¬ NameNext q s t) :
    WalkFits q s ↔ PointerFits q s := by
  constructor
  · exact fun hfits => hfits s .refl
  · intro hhead t ht
    rcases Relation.ReflTransGen.cases_head ht with rfl | ⟨u, hu, -⟩
    · exact hhead
    · exact absurd hu (hend u)

/-- **Run lemma of the walk.** Every step moves on in the message or uses up one
    of the ten jumps. -/
theorem parseNameLoop_safe (q : Bytes) (fuel jumps pos : Nat) (name : Str) (hjumps : jumps ≤ 10)
    (hfuel : (10 - jumps) * (q.length + 1) + (q.length - pos) < fuel) :
    Safe (parseNameLoop q fuel jumps pos name) ↔ WalkFits q (jumps, pos) := by
  induction fuel generalizing jumps pos name with
  | zero => omega
  | succ fuel ih =>
    unfold parseNameLoop
    by_cases hpos : pos < q.length
    · rw [if_pos hpos, safe_index_bind]
      by_cases hzero : byteAt q pos = 0
      · rw [if_pos hzero, walkFits_end]
        · have hnot : PointerFits q (jumps, pos) := by
            intro _ _ hpointer
            simp only [hzero, isPointer_zero] at hpointer
            cases hpointer
          exact iff_of_true ⟨hpos, safe_pure _⟩ hnot
        · rintro t (⟨-, hne, -, -⟩ | ⟨-, hpointer, -⟩)
          · exact hne hzero
          · rw [hzero, isPointer_zero] at hpointer
            cases hpointer
      · rw [if_neg hzero]
        by_cases hpointer : isPointer (byteAt q pos) = true
        · rw [if_pos hpointer]
          by_cases htoo : jumps + 1 > 10
          · rw [if_pos htoo, walkFits_end]
            · have hnot : PointerFits q (jumps, pos) := fun hlt => by
                simp only at hlt
                omega
              exact iff_of_true ⟨hpos, safe_pure _⟩ hnot
            · rintro t (⟨-, -, hlabel, -⟩ | ⟨-, -, hlt⟩)
              · rw [hpointer] at hlabel
                cases hlabel
              · omega
          · rw [if_neg htoo, safe_index_bind, ih]
            · rw [walkFits_head (.jump hpos hpointer (by omega))]
              · constructor
                · rintro ⟨-, hlow, hrest⟩
                  exact ⟨fun _ _ _ => hlow, hrest⟩
                · rintro ⟨hhead, hrest⟩
                  exact ⟨hpos, hhead (by omega) hpos hpointer, hrest⟩
              · rintro t (⟨-, -, hlabel, -⟩ | ⟨-, -, -⟩)
                · rw [hpointer] at hlabel
                  cases hlabel
                · rfl
            · omega
            · have hten : 10 - jumps = (10 - (jumps + 1)) + 1 := by omega
              rw [hten, Nat.add_mul] at hfuel
              omega
        · rw [if_neg hpointer]
          have hlabel : isPointer (byteAt q pos) = false := by simpa using hpointer
          have hnot : PointerFits q (jumps, pos) := fun _ _ h => absurd h hpointer
          by_cases hpast : pos + 1 + (byteAt q pos).toNat > q.length
          · rw [if_pos hpast, walkFits_end]
            · exact iff_of_true ⟨hpos, safe_pure _⟩ hnot
            · rintro t (⟨-, -, -, hin⟩ | ⟨-, h, -⟩)
              · omega
              · exact hpointer h
          · rw [if_neg hpast, safe_range_bind, ih]
            · rw [walkFits_head (.label hpos hzero hlabel (by omega))]
              · constructor
                · rintro ⟨-, -, hrest⟩
                  exact ⟨hnot, hrest⟩
                · rintro ⟨-, hrest⟩
                  exact ⟨hpos, ⟨by omega, by omega⟩, hrest⟩
              · rintro t (⟨-, -, -, -⟩ | ⟨-, h, -⟩)
                · rfl
                · exact absurd h hpointer
            · exact hjumps
            · omega
    · rw [if_neg hpos, walkFits_end]
      · exact iff_of_true (safe_pure _) fun _ h => absurd h hpos
      · rintro t (⟨h, -, -, -⟩ | ⟨h, -, -⟩) <;> exact hpos h

/-- Where the walk ends is where the parser says. -/
theorem parseNameLoop_end {q : Bytes} {fuel jumps pos : Nat} {name : Str}
    {r : Except Str (Str × Nat)} (h : parseNameLoop q fuel jumps pos name = .ok r) :
    nameEndLoop q fuel jumps pos = (r.toOption.map Prod.snd) := by
  induction fuel generalizing jumps pos name with
  | zero =>
    obtain rfl := Except.ok.inj h
    rfl
  | succ fuel ih =>
    unfold parseNameLoop at h
    unfold nameEndLoop
    by_cases hpos : pos < q.length
    · rw [if_pos hpos, index_of_lt hpos] at h
      rw [if_pos hpos]
      by_cases hzero : byteAt q pos = 0
      · simp only [hzero, if_true] at h ⊢
        obtain rfl := Except.ok.inj h
        rfl
      · by_cases hpointer : isPointer (byteAt q pos) = true
        · by_cases htoo : jumps + 1 > 10
          · rw [if_neg hzero, if_pos hpointer, if_pos htoo]
            change (if byteAt q pos = 0 then _ else _) = _ at h
            rw [if_neg hzero, if_pos hpointer, if_pos htoo] at h
            obtain rfl := Except.ok.inj h
            rfl
          · rw [if_neg hzero, if_pos hpointer, if_neg htoo]
            change (if byteAt q pos = 0 then _ else _) = _ at h
            rw [if_neg hzero, if_pos hpointer, if_neg htoo] at h
            obtain ⟨low, hlow, h⟩ := bind_eq_ok h
            rw [(index_eq_ok hlow).2] at h
            exact ih h
        · by_cases hpast : pos + 1 + (byteAt q pos).toNat > q.length
          · rw [if_neg hzero, if_neg hpointer, if_pos hpast]
            change (if byteAt q pos = 0 then _ else _) = _ at h
            rw [if_neg hzero, if_neg hpointer, if_pos hpast] at h
            obtain rfl := Except.ok.inj h
            rfl
          · rw [if_neg hzero, if_neg hpointer, if_neg hpast]
            change (if byteAt q pos = 0 then _ else _) = _ at h
            rw [if_neg hzero, if_neg hpointer, if_neg hpast] at h
            obtain ⟨label, -, h⟩ := bind_eq_ok h
            exact ih h
    · rw [if_neg hpos] at h ⊢
      obtain rfl := Except.ok.inj h
      rfl

theorem parseName_safe {q : Bytes} {pos : Nat} : Safe (parseName q pos) ↔ OwnerFits q pos :=
  parseNameLoop_safe q _ 0 pos [] (by omega) (by omega)

theorem parseName_end {q : Bytes} {pos : Nat} {r : Except Str (Str × Nat)}
    (h : parseName q pos = .ok r) : nameEnd q pos = (r.toOption.map Prod.snd) :=
  parseNameLoop_end h

/-! ## Section 2: Records -/

section tryBind

variable {α β : Type} {x : Checked (Except Str α)} {f : α → Checked (Except Str β)}

theorem safe_tryBind :
    Safe (tryBind x f) ↔ Safe x ∧ ∀ a, x = .ok (.ok a) → Safe (f a) := by
  unfold tryBind
  rw [safe_bind]
  constructor
  · rintro ⟨r, rfl, hr⟩
    refine ⟨⟨r, rfl⟩, fun a ha => ?_⟩
    obtain rfl := Except.ok.inj ha
    exact hr
  · rintro ⟨⟨r, rfl⟩, hr⟩
    refine ⟨r, rfl, ?_⟩
    cases r with
    | error e => exact safe_pure _
    | ok a => exact hr a rfl

theorem tryBind_eq_ok {r : Except Str β} (h : tryBind x f = .ok r) :
    (∃ e, x = .ok (.error e) ∧ r = .error e) ∨ ∃ a, x = .ok (.ok a) ∧ f a = .ok r := by
  obtain ⟨r', hx, h⟩ := bind_eq_ok h
  cases r' with
  | error e => exact Or.inl ⟨e, hx, (Except.ok.inj h).symm⟩
  | ok a => exact Or.inr ⟨a, hx, h⟩

/-- A parser that goes on from the end of a name without further risk. -/
theorem safe_parseName_tryBind {q : Bytes} {pos : Nat} {g : Str × Nat → Checked (Except Str β)}
    (hg : ∀ r, Safe (g r)) : Safe (tryBind (parseName q pos) g) ↔ OwnerFits q pos := by
  rw [safe_tryBind, parseName_safe]
  exact and_iff_left fun r _ => hg r

end tryBind

theorem parseRr_safe {q : Bytes} {pos : Nat} : Safe (parseRr q pos) ↔ OwnerFits q pos := by
  refine safe_parseName_tryBind fun ⟨name, endPos⟩ => ?_
  simp only [safe_ite, safe_readU16_bind]
  exact ⟨fun _ => safe_pure _, fun hin => ⟨by omega, by omega, safe_pure _⟩⟩

theorem parseRrWithRdata_safe {q : Bytes} {pos : Nat} :
    Safe (parseRrWithRdata q pos) ↔ OwnerFits q pos := by
  refine safe_parseName_tryBind fun ⟨name, endPos⟩ => ?_
  simp only [safe_ite, safe_readU16_bind, safe_range_bind]
  refine ⟨fun _ => safe_pure _, fun hin => ⟨by omega, by omega, by omega, fun _ => safe_pure _, ?_⟩⟩
  exact fun hrdata => ⟨⟨by omega, by omega⟩, safe_pure _⟩

theorem parseRrFull_safe {q : Bytes} {pos : Nat} :
    Safe (parseRrFull q pos) ↔ OwnerFits q pos := by
  refine safe_parseName_tryBind fun ⟨name, endPos⟩ => ?_
  simp only [safe_ite, safe_readU16_bind, safe_range_bind]
  refine ⟨fun _ => safe_pure _, fun hin => ⟨by omega, by omega, by omega, by omega, by omega,
    fun _ => safe_pure _, ?_⟩⟩
  exact fun hrdata => ⟨⟨by omega, by omega⟩, safe_pure _⟩

/-- The RDLENGTH of a record whose name ends at `endPos`. -/
def rdlengthAt (q : Bytes) (endPos : Nat) : Nat := (u16At q (endPos + 8)).toNat

/-- A record whose name ends at `endPos` is in the message. -/
def Complete (q : Bytes) (endPos : Nat) : Prop := endPos + 10 + rdlengthAt q endPos ≤ q.length

instance (q : Bytes) (endPos : Nat) : Decidable (Complete q endPos) :=
  inferInstanceAs (Decidable (_ ≤ _))

/-- The position behind a record that is in the message. -/
def recordNext (q : Bytes) (pos : Nat) : Option Nat :=
  (nameEnd q pos).bind fun endPos =>
    if Complete q endPos then some (endPos + 10 + rdlengthAt q endPos) else none

/-- Where a skipped record ends, whether it is in the message or not. -/
def skipNext (q : Bytes) (pos : Nat) : Nat :=
  let endPos := (nameEnd q pos).getD pos
  if endPos + 10 > q.length then q.length else endPos + 10 + rdlengthAt q endPos

theorem nameEndOr_eq {q : Bytes} {pos : Nat} (h : OwnerFits q pos) :
    nameEndOr q pos = .ok ((nameEnd q pos).getD pos) := by
  obtain ⟨r, hr⟩ := parseName_safe.mpr h
  unfold nameEndOr
  rw [hr, parseName_end hr]
  cases r <;> rfl

theorem skipRr_eq {q : Bytes} {pos : Nat} (h : OwnerFits q pos) :
    skipRr q pos = .ok ((nameEnd q pos).getD pos + 4) := by
  unfold skipRr
  rw [nameEndOr_eq h]
  rfl

theorem skipRrWithRdata_eq {q : Bytes} {pos : Nat} (h : OwnerFits q pos) :
    skipRrWithRdata q pos = .ok (skipNext q pos) := by
  unfold skipRrWithRdata skipNext
  rw [nameEndOr_eq h]
  generalize (nameEnd q pos).getD pos = endPos
  change (if endPos + 10 > q.length then _ else _) = _
  split
  · next hpast =>
    rw [if_pos hpast]
    rfl
  · next hpast =>
    rw [if_neg hpast, readU16_of_lt (by omega)]
    rfl

theorem safe_of_skip {q : Bytes} {pos : Nat} {f : Nat → Checked Nat}
    (h : Safe (nameEndOr q pos >>= f)) : OwnerFits q pos := by
  obtain ⟨endPos, hend, -⟩ := (safe_bind _ _).mp h
  obtain ⟨r, hr, -⟩ := (safe_bind _ _).mp ⟨endPos, hend⟩
  exact parseName_safe.mp ⟨r, hr⟩

theorem skipRr_safe {q : Bytes} {pos : Nat} : Safe (skipRr q pos) ↔ OwnerFits q pos :=
  ⟨safe_of_skip, fun h => ⟨_, skipRr_eq h⟩⟩

theorem skipRrWithRdata_safe {q : Bytes} {pos : Nat} :
    Safe (skipRrWithRdata q pos) ↔ OwnerFits q pos :=
  ⟨safe_of_skip, fun h => ⟨_, skipRrWithRdata_eq h⟩⟩

/-! ## Section 3: Chains of records -/

/-- The position behind `count` records. -/
def after (next : Nat → Option Nat) : Nat → Nat → Option Nat
  | 0, pos => some pos
  | count + 1, pos => (next pos).bind (after next count)

/-- Up to `count` records of the chain fit. -/
def ChainFits (next : Nat → Option Nat) (Fits : Nat → Prop) (count pos : Nat) : Prop :=
  ∀ i < count, ∀ p, after next i pos = some p → Fits p

theorem chainFits_zero {next : Nat → Option Nat} {Fits : Nat → Prop} {pos : Nat} :
    ChainFits next Fits 0 pos := fun i hi => absurd hi (Nat.not_lt_zero i)

theorem chainFits_succ {next : Nat → Option Nat} {Fits : Nat → Prop} {count pos : Nat} :
    ChainFits next Fits (count + 1) pos ↔
      Fits pos ∧ ∀ p, next pos = some p → ChainFits next Fits count p := by
  constructor
  · intro h
    refine ⟨h 0 (Nat.succ_pos _) pos rfl, fun p hp i hi p' hp' => ?_⟩
    exact h (i + 1) (by omega) p' (by rw [after, hp, Option.bind_some, hp'])
  · rintro ⟨hhead, hrest⟩ i hi p hp
    cases i with
    | zero =>
      obtain rfl := Option.some.inj hp
      exact hhead
    | succ i =>
      obtain ⟨p', hp', htail⟩ := Option.bind_eq_some_iff.mp hp
      exact hrest p' hp' i (by omega) p htail

/-- A parser of one record, the skip behind it, and what they do by the layout. -/
structure RecordParser {α : Type} (parse : Nat → Checked (Except Str α)) (skip : Nat → Checked Nat)
    (Fits : Nat → Prop) (next : Nat → Option Nat) : Prop where
  safe : ∀ pos, Safe (parse pos) ↔ Fits pos
  ok : ∀ pos a, parse pos = .ok (.ok a) → ∃ p, next pos = some p ∧ skip pos = .ok p
  error : ∀ pos e, parse pos = .ok (.error e) → next pos = none

namespace RecordParser

variable {α : Type} {parse : Nat → Checked (Except Str α)} {skip : Nat → Checked Nat}
  {Fits : Nat → Prop} {next : Nat → Option Nat} {pos : Nat}

/-- **Run lemma of a record loop.** -/
theorem parseMany_safe (h : RecordParser parse skip Fits next) (count : Nat) (acc : List α) :
    Safe (parseMany parse skip count pos acc) ↔ ChainFits next Fits count pos := by
  induction count generalizing pos acc with
  | zero => exact iff_of_true (safe_pure _) chainFits_zero
  | succ count ih =>
    unfold parseMany
    rw [safe_tryBind, chainFits_succ, h.safe]
    refine and_congr_right fun hfits => ?_
    obtain ⟨r, hr⟩ := (h.safe pos).mpr hfits
    cases r with
    | error e =>
      rw [hr, h.error pos e hr]
      exact iff_of_true (fun a ha => by cases ha) fun p hp => by cases hp
    | ok a =>
      obtain ⟨p, hp, hskip⟩ := h.ok pos a hr
      rw [hr, hp]
      constructor
      · rintro hall p' hp'
        obtain rfl := Option.some.inj hp'
        have hsafe := hall a rfl
        rw [hskip] at hsafe
        exact (ih _).mp hsafe
      · intro hrest a' ha'
        obtain rfl := Except.ok.inj (Except.ok.inj ha')
        rw [hskip]
        exact (ih _).mpr (hrest p rfl)

/-- The loop ends behind the last record. -/
theorem parseMany_end (h : RecordParser parse skip Fits next) {count : Nat} {acc : List α}
    {r : Except Str (List α × Nat)} (hr : parseMany parse skip count pos acc = .ok r) :
    after next count pos = r.toOption.map Prod.snd := by
  induction count generalizing pos acc with
  | zero =>
    obtain rfl := Except.ok.inj hr
    rfl
  | succ count ih =>
    unfold parseMany at hr
    unfold after
    rcases tryBind_eq_ok hr with ⟨e, hparse, rfl⟩ | ⟨a, hparse, hrest⟩
    · rw [h.error pos e hparse]
      rfl
    · obtain ⟨p, hp, hskip⟩ := h.ok pos a hparse
      rw [hskip] at hrest
      rw [hp, Option.bind_some]
      exact ih hrest

/-- If the chain is long enough, the loop goes through it. -/
theorem parseMany_of_after (h : RecordParser parse skip Fits next) {count p : Nat} {acc : List α}
    (hfits : ChainFits next Fits count pos) (hafter : after next count pos = some p) :
    ∃ l, parseMany parse skip count pos acc = .ok (.ok (l, p)) := by
  obtain ⟨r, hr⟩ := (h.parseMany_safe count acc).mpr hfits
  have hend := h.parseMany_end hr
  rw [hafter] at hend
  cases r with
  | error e => cases hend
  | ok r =>
    obtain ⟨l, p'⟩ := r
    obtain rfl : p = p' := Option.some.inj hend
    exact ⟨l, hr⟩

end RecordParser

/-- Both kinds of records are read behind their names in the same way. -/
theorem recordNext_of_tryBind {α : Type} {q : Bytes} {pos : Nat}
    {f : Str × Nat → Checked (Except Str α)}
    (hok : ∀ name endPos a, f (name, endPos) = .ok (.ok a) → Complete q endPos)
    (herror : ∀ name endPos e, f (name, endPos) = .ok (.error e) → ¬ Complete q endPos)
    {r : Except Str α} (h : tryBind (parseName q pos) f = .ok r) :
    (∀ a, r = .ok a → ∃ p, recordNext q pos = some p ∧ skipRrWithRdata q pos = .ok p) ∧
      ∀ e, r = .error e → recordNext q pos = none := by
  have hfits : OwnerFits q pos := by
    obtain ⟨r', hr', -⟩ := bind_eq_ok h
    exact parseName_safe.mp ⟨r', hr'⟩
  unfold recordNext
  rcases tryBind_eq_ok h with ⟨e, hname, rfl⟩ | ⟨⟨name, endPos⟩, hname, hf⟩
  · rw [parseName_end hname]
    exact ⟨fun a ha => (by cases ha), fun _ _ => rfl⟩
  · rw [skipRrWithRdata_eq hfits, skipNext, parseName_end hname]
    constructor
    · rintro a rfl
      have hcomplete := hok name endPos a hf
      have hroom : ¬ endPos + 10 > q.length := by
        unfold Complete at hcomplete
        omega
      exact ⟨_, if_pos hcomplete, congrArg Except.ok (if_neg hroom)⟩
    · rintro e rfl
      exact if_neg (herror name endPos e hf)

theorem parseRrWithRdata_next {q : Bytes} {pos : Nat}
    {r : Except Str (Str × UInt16 × UInt16 × Bytes)} (h : parseRrWithRdata q pos = .ok r) :
    (∀ a, r = .ok a → ∃ p, recordNext q pos = some p ∧ skipRrWithRdata q pos = .ok p) ∧
      ∀ e, r = .error e → recordNext q pos = none := by
  refine recordNext_of_tryBind ?_ ?_ h
  · intro name endPos a hf
    simp only at hf
    split at hf
    · cases hf
    · obtain ⟨rtype, -, hf⟩ := bind_eq_ok hf
      obtain ⟨rclass, -, hf⟩ := bind_eq_ok hf
      obtain ⟨rdlen, hrdlen, hf⟩ := bind_eq_ok hf
      rw [(readU16_eq_ok hrdlen).2] at hf
      split at hf
      · cases hf
      · next hin => exact Nat.le_of_not_lt hin
  · intro name endPos e hf
    simp only at hf
    split at hf
    · next hpast =>
      unfold Complete
      omega
    · obtain ⟨rtype, -, hf⟩ := bind_eq_ok hf
      obtain ⟨rclass, -, hf⟩ := bind_eq_ok hf
      obtain ⟨rdlen, hrdlen, hf⟩ := bind_eq_ok hf
      rw [(readU16_eq_ok hrdlen).2] at hf
      split at hf
      · next hpast => exact Nat.not_le.mpr hpast
      · obtain ⟨rdata, -, hf⟩ := bind_eq_ok hf
        cases hf

theorem parseRrFull_next {q : Bytes} {pos : Nat}
    {r : Except Str (Str × UInt16 × UInt16 × Nat × Bytes)} (h : parseRrFull q pos = .ok r) :
    (∀ a, r = .ok a → ∃ p, recordNext q pos = some p ∧ skipRrWithRdata q pos = .ok p) ∧
      ∀ e, r = .error e → recordNext q pos = none := by
  refine recordNext_of_tryBind ?_ ?_ h
  · intro name endPos a hf
    simp only at hf
    split at hf
    · cases hf
    · obtain ⟨rtype, -, hf⟩ := bind_eq_ok hf
      obtain ⟨rclass, -, hf⟩ := bind_eq_ok hf
      obtain ⟨ttlHigh, -, hf⟩ := bind_eq_ok hf
      obtain ⟨ttlLow, -, hf⟩ := bind_eq_ok hf
      obtain ⟨rdlen, hrdlen, hf⟩ := bind_eq_ok hf
      rw [(readU16_eq_ok hrdlen).2] at hf
      split at hf
      · cases hf
      · next hin => exact Nat.le_of_not_lt hin
  · intro name endPos e hf
    simp only at hf
    split at hf
    · next hpast =>
      unfold Complete
      omega
    · obtain ⟨rtype, -, hf⟩ := bind_eq_ok hf
      obtain ⟨rclass, -, hf⟩ := bind_eq_ok hf
      obtain ⟨ttlHigh, -, hf⟩ := bind_eq_ok hf
      obtain ⟨ttlLow, -, hf⟩ := bind_eq_ok hf
      obtain ⟨rdlen, hrdlen, hf⟩ := bind_eq_ok hf
      rw [(readU16_eq_ok hrdlen).2] at hf
      split at hf
      · next hpast => exact Nat.not_le.mpr hpast
      · obtain ⟨rdata, -, hf⟩ := bind_eq_ok hf
        cases hf

/-- Renaming what a parser returns keeps it a parser of the same records. -/
theorem recordParser_of_next {α β : Type} {q : Bytes} {parse : Nat → Checked (Except Str α)}
    {g : α → β} (hsafe : ∀ pos, Safe (parse pos) ↔ OwnerFits q pos)
    (hnext : ∀ pos r, parse pos = .ok r →
      (∀ a, r = .ok a → ∃ p, recordNext q pos = some p ∧ skipRrWithRdata q pos = .ok p) ∧
        ∀ e, r = .error e → recordNext q pos = none) :
    RecordParser (fun pos => tryBind (parse pos) fun a => return .ok (g a)) (skipRrWithRdata q)
      (OwnerFits q) (recordNext q) where
  safe pos := by
    rw [safe_tryBind, hsafe]
    exact and_iff_left fun a _ => safe_pure _
  ok pos b h := by
    rcases tryBind_eq_ok h with ⟨e, -, he⟩ | ⟨a, ha, -⟩
    · cases he
    · exact (hnext pos _ ha).1 a rfl
  error pos e h := by
    rcases tryBind_eq_ok h with ⟨e', he', -⟩ | ⟨a, -, ha⟩
    · exact (hnext pos _ he').2 e' rfl
    · cases ha

theorem recordParser_prerequisites (q : Bytes) :
    RecordParser (parsePrerequisite q) (skipRrWithRdata q) (OwnerFits q) (recordNext q) :=
  recordParser_of_next (fun _ => parseRrWithRdata_safe) fun _ _ => parseRrWithRdata_next

theorem recordParser_updates (q : Bytes) :
    RecordParser (parseUpdate q) (skipRrFull q) (OwnerFits q) (recordNext q) :=
  recordParser_of_next (fun _ => parseRrFull_safe) fun _ _ => parseRrFull_next

/-! ## Section 4: The update message -/

/-- The message has a header, and its opcode is UPDATE. -/
def IsUpdateMessage (q : Bytes) : Prop :=
  12 ≤ q.length ∧ (QueryFlags.fromU16 (u16At q 2)).opcode = opcodeUpdate

/-- The position behind the zone section, if it is in the message. -/
def zoneEnd (q : Bytes) : Option Nat :=
  if u16At q 4 > 0 then
    (nameEnd q 12).bind fun endPos => if endPos + 4 > q.length then none else some (endPos + 4)
  else some 12

/-- Every name up to the first record that is not in the message fits, and if the
    prerequisites are there, the number of updates fits into 16 bits. -/
structure UpdateFits (q : Bytes) : Prop where
  zone : u16At q 4 > 0 → OwnerFits q 12
  prerequisites : ∀ p, zoneEnd q = some p →
    ChainFits (recordNext q) (OwnerFits q) (u16At q 6).toNat p
  counts : ∀ p p', zoneEnd q = some p → after (recordNext q) (u16At q 6).toNat p = some p' →
    (u16At q 8).toNat + (u16At q 10).toNat < 2 ^ 16
  updates : ∀ p p', zoneEnd q = some p → after (recordNext q) (u16At q 6).toNat p = some p' →
    ChainFits (recordNext q) (OwnerFits q) ((u16At q 8).toNat + (u16At q 10).toNat) p'

theorem parseZone_safe {q : Bytes} :
    Safe (parseZone q (u16At q 4)) ↔ (u16At q 4 > 0 → OwnerFits q 12) := by
  unfold parseZone
  rw [safe_ite, safe_tryBind, parseRr_safe]
  constructor
  · exact fun h hqd => (h.1 hqd).1
  · refine fun h => ⟨fun hqd => ⟨h hqd, fun r _ => ?_⟩, fun _ => safe_pure _⟩
    rw [skipRr_eq (h hqd)]
    exact safe_pure _

theorem parseZone_end {q : Bytes} {r : Except Str (Option UpdateZone × Nat)}
    (h : parseZone q (u16At q 4) = .ok r) : zoneEnd q = r.toOption.map Prod.snd := by
  unfold parseZone at h
  unfold zoneEnd
  split at h
  · next hqd =>
    rw [if_pos hqd]
    have hfits : OwnerFits q 12 := parseZone_safe.mp ⟨r, by rw [parseZone, if_pos hqd]; exact h⟩ hqd
    rcases tryBind_eq_ok h with ⟨e, hrr, rfl⟩ | ⟨⟨name, zclass⟩, hrr, hrest⟩
    · rcases tryBind_eq_ok hrr with ⟨e', hname, -⟩ | ⟨⟨name, endPos⟩, hname, hf⟩
      · rw [parseName_end hname]
        rfl
      · rw [parseName_end hname]
        simp only at hf
        split at hf
        · next hpast => exact if_pos hpast
        · obtain ⟨rtype, -, hf⟩ := bind_eq_ok hf
          obtain ⟨zclass, -, hf⟩ := bind_eq_ok hf
          cases hf
    · rw [skipRr_eq hfits] at hrest
      obtain rfl := Except.ok.inj hrest
      rcases tryBind_eq_ok hrr with ⟨e', -, he'⟩ | ⟨⟨name', endPos⟩, hname, hf⟩
      · cases he'
      · rw [parseName_end hname]
        simp only at hf
        split at hf
        · cases hf
        · next hin => exact if_neg hin
  · next hqd =>
    rw [if_neg hqd]
    obtain rfl := Except.ok.inj h
    rfl

theorem parseZone_of_zoneEnd {q : Bytes} {p : Nat} (hzone : u16At q 4 > 0 → OwnerFits q 12)
    (h : zoneEnd q = some p) : ∃ zone, parseZone q (u16At q 4) = .ok (.ok (zone, p)) := by
  obtain ⟨r, hr⟩ := parseZone_safe.mpr hzone
  have hend := parseZone_end hr
  rw [h] at hend
  cases r with
  | error e => cases hend
  | ok r =>
    obtain ⟨zone, p'⟩ := r
    obtain rfl : p = p' := Option.some.inj hend
    exact ⟨zone, hr⟩

theorem parseSections_safe {q : Bytes} :
    Safe (parseSections q (u16At q 4) (u16At q 6) (u16At q 8) (u16At q 10)) ↔ UpdateFits q := by
  unfold parseSections
  rw [safe_tryBind, parseZone_safe]
  constructor
  · rintro ⟨hzone, hrest⟩
    have hprereq : ∀ p, zoneEnd q = some p →
        ChainFits (recordNext q) (OwnerFits q) (u16At q 6).toNat p := by
      intro p hp
      obtain ⟨zone, hparse⟩ := parseZone_of_zoneEnd hzone hp
      exact ((recordParser_prerequisites q).parseMany_safe _ _).mp
        (safe_tryBind.mp (hrest _ hparse)).1
    have hupdates : ∀ p p', zoneEnd q = some p →
        after (recordNext q) (u16At q 6).toNat p = some p' →
          (u16At q 8).toNat + (u16At q 10).toNat < 2 ^ 16 ∧
            ChainFits (recordNext q) (OwnerFits q) ((u16At q 8).toNat + (u16At q 10).toNat) p' := by
      intro p p' hp hp'
      obtain ⟨zone, hparse⟩ := parseZone_of_zoneEnd hzone hp
      obtain ⟨l, hl⟩ := (recordParser_prerequisites q).parseMany_of_after (hprereq p hp) hp'
      have hafter := (safe_tryBind.mp (hrest _ hparse)).2 _ hl
      rw [safe_checkedAdd_bind, safe_tryBind] at hafter
      exact ⟨hafter.1, ((recordParser_updates q).parseMany_safe _ _).mp hafter.2.1⟩
    exact ⟨hzone, hprereq, fun p p' hp hp' => (hupdates p p' hp hp').1,
      fun p p' hp hp' => (hupdates p p' hp hp').2⟩
  · intro hfits
    refine ⟨hfits.zone, fun ⟨zone, p⟩ hparse => ?_⟩
    have hp : zoneEnd q = some p := parseZone_end hparse
    refine safe_tryBind.mpr ⟨((recordParser_prerequisites q).parseMany_safe _ _).mpr
      (hfits.prerequisites p hp), fun ⟨l, p'⟩ hl => ?_⟩
    have hp' : after (recordNext q) (u16At q 6).toNat p = some p' :=
      (recordParser_prerequisites q).parseMany_end hl
    simp only [safe_checkedAdd_bind, safe_tryBind]
    exact ⟨hfits.counts p p' hp hp', ((recordParser_updates q).parseMany_safe _ _).mpr
      (hfits.updates p p' hp hp'), fun _ _ => safe_pure _⟩

/-- **The update message.** -/
theorem dynamicUpdate_parse_safe {q : Bytes} :
    Safe (DynamicUpdate.parse q) ↔ (IsUpdateMessage q → UpdateFits q) := by
  unfold DynamicUpdate.parse
  by_cases hshort : q.length < 12
  · rw [if_pos hshort]
    exact iff_of_true (safe_pure _) fun hmessage => absurd hmessage.1 (by omega)
  rw [if_neg hshort, safe_readU16_bind]
  by_cases hopcode : (QueryFlags.fromU16 (u16At q 2)).opcode = opcodeUpdate
  · rw [if_neg (not_not.mpr hopcode)]
    simp only [safe_readU16_bind, parseSections_safe]
    constructor
    · rintro ⟨-, -, -, -, -, hfits⟩ -
      exact hfits
    · intro hfits
      exact ⟨by omega, by omega, by omega, by omega, by omega,
        hfits ⟨Nat.le_of_not_lt hshort, hopcode⟩⟩
  · rw [if_pos hopcode]
    exact iff_of_true ⟨by omega, safe_pure _⟩ fun hmessage => absurd hmessage.2 hopcode

/-! ## Section 5: The TSIG record -/

/-- Where the key name at `pos` ends; `none` if it runs past the message. -/
def keyNameEnd (q : Bytes) : Nat → Nat → Option Nat
  | 0, pos => some pos
  | fuel + 1, pos =>
      if pos < q.length then
        if byteAt q pos = 0 then some (pos + 1)
        else if pos + 1 + (byteAt q pos).toNat > q.length then none
        else keyNameEnd q fuel (pos + 1 + (byteAt q pos).toNat)
      else some pos

theorem readKeyName_eq (q : Bytes) (fuel pos : Nat) (name : Str) :
    ∃ r, readKeyName q fuel pos name = .ok r ∧ keyNameEnd q fuel pos = r.map Prod.snd := by
  induction fuel generalizing pos name with
  | zero => exact ⟨some (name, pos), rfl, rfl⟩
  | succ fuel ih =>
    unfold readKeyName keyNameEnd
    by_cases hpos : pos < q.length
    · rw [if_pos hpos, if_pos hpos, index_of_lt hpos]
      change ∃ r, (if byteAt q pos = 0 then _ else _) = _ ∧ _
      by_cases hzero : byteAt q pos = 0
      · rw [if_pos hzero, if_pos hzero]
        exact ⟨some (name, pos + 1), rfl, rfl⟩
      · rw [if_neg hzero, if_neg hzero]
        by_cases hpast : pos + 1 + (byteAt q pos).toNat > q.length
        · rw [if_pos hpast, if_pos hpast]
          exact ⟨none, rfl, rfl⟩
        · have hrange : range q (pos + 1) (pos + 1 + (byteAt q pos).toNat) =
              .ok (slice q (pos + 1) (pos + 1 + (byteAt q pos).toNat)) :=
            if_pos ⟨by omega, by omega⟩
          rw [if_neg hpast, if_neg hpast, hrange]
          exact ih _ _
    · rw [if_neg hpos, if_neg hpos]
      exact ⟨some (name, pos), rfl, rfl⟩

/-- The fields behind a key name that ends at `k`: if the MAC is in the message,
    so are the four bytes behind it. -/
def MacFits (q : Bytes) (k : Nat) : Prop :=
  k + 14 ≤ q.length → k + 12 + (u16At q (k + 10)).toNat ≤ q.length →
    k + 16 + (u16At q (k + 10)).toNat ≤ q.length

/-- What is read of a record whose type is at `t`. -/
structure TypeFits (q : Bytes) (t : Nat) : Prop where
  rrType : t + 2 ≤ q.length
  rdlength : u16At q t ≠ 250 → t + 4 ≤ q.length
  tsig : u16At q t = 250 → ∀ k, keyNameEnd q (q.length + 1) (t + 4) = some k → MacFits q k

/-- The next record behind one that is not a TSIG record. -/
def TsigNext (q : Bytes) (p p' : Nat) : Prop :=
  p + 10 ≤ q.length ∧ ∃ t, skipOwner q p = some t ∧ u16At q t ≠ 250 ∧
    p' = t + 4 + (u16At q (t + 2)).toNat

/-- Every record in the chain from `start` fits as far as it is read. -/
def TsigChainFits (q : Bytes) (start : Nat) : Prop :=
  ∀ p, Relation.ReflTransGen (TsigNext q) start p → p + 10 ≤ q.length →
    ∀ t, skipOwner q p = some t → TypeFits q t

/-- The condition of `parse_tsig_from_query`. -/
def TsigFits (q : Bytes) (qdEnd : Nat) : Prop :=
  qdEnd + 11 < 2 ^ 64 ∧ (qdEnd + 11 ≤ q.length → TsigChainFits q qdEnd)

theorem readTsigFields_safe {q : Bytes} {keyName : Str} {keyStart k : Nat} :
    Safe (readTsigFields q keyName keyStart k) ↔ MacFits q k := by
  unfold readTsigFields MacFits
  simp only [safe_ite, safe_readU16_bind, safe_range_bind]
  constructor
  · rintro ⟨-, h⟩ hroom hmac
    obtain ⟨-, -, -, -, -, h⟩ := h (by omega)
    obtain ⟨-, -, hother, -⟩ := h (by omega)
    omega
  · intro h
    refine ⟨fun _ => safe_pure _, fun hroom => ⟨by omega, ⟨by omega, by omega⟩, by omega,
      by omega, fun _ => safe_pure _, fun hmac => ?_⟩⟩
    have := h (by omega) (by omega)
    exact ⟨⟨by omega, by omega⟩, by omega, by omega, safe_pure _⟩

theorem readTsigRecord_safe {q : Bytes} {keyStart : Nat} :
    Safe (readTsigRecord q keyStart) ↔
      ∀ k, keyNameEnd q (q.length + 1) keyStart = some k → MacFits q k := by
  obtain ⟨key, hkey, hend⟩ := readKeyName_eq q (q.length + 1) keyStart []
  unfold readTsigRecord
  rw [hkey, hend]
  cases key with
  | none => exact iff_of_true (safe_pure _) fun k hk => by cases hk
  | some found =>
    obtain ⟨keyName, stop⟩ := found
    refine readTsigFields_safe.trans ⟨fun h k hk => ?_, fun h => h stop rfl⟩
    obtain rfl : stop = k := Option.some.inj hk
    exact h

/-- **Run lemma of the search.** A record takes at least four bytes. -/
theorem findTsig_safe {q : Bytes} (fuel start : Nat) (hfuel : q.length - start < fuel) :
    Safe (findTsig q fuel start) ↔ TsigChainFits q start := by
  induction fuel generalizing start with
  | zero => omega
  | succ fuel ih =>
    unfold findTsig
    by_cases hroom : start + 10 ≤ q.length
    · rw [if_pos hroom]
      cases howner : skipOwner q start with
      | none =>
        refine iff_of_true (safe_pure _) fun p hp _ t ht => ?_
        rcases Relation.ReflTransGen.cases_head hp with rfl | ⟨p', ⟨-, t', ht', -⟩, -⟩
        · rw [howner] at ht
          cases ht
        · rw [howner] at ht'
          cases ht'
      | some t =>
        have hle := le_of_skipOwner howner
        simp only [safe_readU16_bind, safe_ite, readTsigRecord_safe]
        rw [ih _ (by omega)]
        constructor
        · rintro ⟨htype, hother, htsig⟩ p hp hp' t' ht'
          rcases Relation.ReflTransGen.cases_head hp with rfl | ⟨p', ⟨-, t'', ht'', hne, rfl⟩, hp''⟩
          · obtain rfl := Option.some.inj (howner.symm.trans ht')
            exact ⟨htype, fun hne => (hother hne).1, fun heq => htsig (not_not.mpr heq)⟩
          · obtain rfl := Option.some.inj (howner.symm.trans ht'')
            exact (hother hne).2 p hp'' hp' t' ht'
        · intro hfits
          obtain ⟨htype, hrdlength, htsig⟩ := hfits start .refl hroom t howner
          refine ⟨htype, fun hne => ⟨hrdlength hne, fun p hp => ?_⟩,
            fun heq => htsig (not_not.mp heq)⟩
          exact hfits p (.head ⟨hroom, t, howner, hne, rfl⟩ hp)
    · rw [if_neg hroom]
      refine iff_of_true (safe_pure _) fun p hp hp' => ?_
      rcases Relation.ReflTransGen.cases_head hp with rfl | ⟨p', ⟨hroom', -⟩, -⟩
      · exact absurd hp' hroom
      · exact absurd hroom' hroom

theorem parseTsigFromQuery_safe {q : Bytes} {qdEnd : Nat} :
    Safe (parseTsigFromQuery q qdEnd) ↔ TsigFits q qdEnd := by
  unfold parseTsigFromQuery TsigFits
  rw [safe_checkedAdd_bind, safe_ite]
  refine and_congr_right fun _ => ?_
  rw [findTsig_safe _ _ (by omega)]
  constructor
  · exact fun h hle => h.2 (by omega)
  · exact fun h => ⟨fun _ => safe_pure _, fun hle => h (by omega)⟩

/-! ## Section 6: The handler -/

/-- Every one of `count` skipped records has a name that fits. -/
def SkipsFit (q : Bytes) (next : Nat → Nat) (count pos : Nat) : Prop :=
  ∀ i < count, OwnerFits q (next^[i] pos)

theorem skipMany_eq {q : Bytes} (skip : Nat → Checked Nat) (next : Nat → Nat)
    (hsafe : ∀ pos, Safe (skip pos) ↔ OwnerFits q pos)
    (hskip : ∀ pos, OwnerFits q pos → skip pos = .ok (next pos)) (count pos : Nat) :
    (Safe (DynamicUpdateHandler.skipMany skip count pos) ↔ SkipsFit q next count pos) ∧
      (SkipsFit q next count pos →
        DynamicUpdateHandler.skipMany skip count pos = .ok (next^[count] pos)) := by
  induction count generalizing pos with
  | zero =>
    exact ⟨iff_of_true (safe_pure _) fun i hi => absurd hi (Nat.not_lt_zero i), fun _ => rfl⟩
  | succ count ih =>
    have hsucc : SkipsFit q next (count + 1) pos ↔
        OwnerFits q pos ∧ SkipsFit q next count (next pos) := by
      constructor
      · exact fun h => ⟨h 0 (Nat.succ_pos _), fun i hi => h (i + 1) (by omega)⟩
      · rintro ⟨hhead, hrest⟩ i hi
        cases i with
        | zero => exact hhead
        | succ i => exact hrest i (by omega)
    unfold DynamicUpdateHandler.skipMany
    rw [hsucc]
    constructor
    · rw [safe_bind]
      constructor
      · rintro ⟨p, hp, hrest⟩
        have hfits := (hsafe pos).mp ⟨p, hp⟩
        obtain rfl : next pos = p := Except.ok.inj ((hskip pos hfits).symm.trans hp)
        exact ⟨hfits, (ih _).1.mp hrest⟩
      · rintro ⟨hfits, hrest⟩
        exact ⟨_, hskip pos hfits, (ih _).1.mpr hrest⟩
    · rintro ⟨hfits, hrest⟩
      rw [hskip pos hfits]
      exact (ih _).2 hrest

/-- The position behind a skipped question. -/
def questionNext (q : Bytes) (pos : Nat) : Nat := (nameEnd q pos).getD pos + 4

/-- Where the skipped questions, prerequisites and updates end. -/
def questionsEnd (q : Bytes) : Nat := (questionNext q)^[(u16At q 4).toNat] 12

def prerequisitesEnd (q : Bytes) : Nat := (skipNext q)^[(u16At q 6).toNat] (questionsEnd q)

def additionalOffset (q : Bytes) : Nat := (skipNext q)^[(u16At q 8).toNat] (prerequisitesEnd q)

/-- What the handler reads before the update is parsed: the counters of the
    header, the names that it skips, and the records behind them. -/
structure HandlerFits (q : Bytes) : Prop where
  header : 10 ≤ q.length
  questions : SkipsFit q (questionNext q) (u16At q 4).toNat 12
  prerequisites : SkipsFit q (skipNext q) (u16At q 6).toNat (questionsEnd q)
  updates : SkipsFit q (skipNext q) (u16At q 8).toNat (prerequisitesEnd q)
  tsig : TsigFits q (additionalOffset q)

theorem computeAdditionalSectionOffset_safe {q : Bytes} {β : Type} {f : Nat → Checked β} :
    Safe (DynamicUpdateHandler.computeAdditionalSectionOffset q 12 (u16At q 4) (u16At q 6)
        (u16At q 8) >>= f) ↔
      (SkipsFit q (questionNext q) (u16At q 4).toNat 12 ∧
        SkipsFit q (skipNext q) (u16At q 6).toNat (questionsEnd q) ∧
        SkipsFit q (skipNext q) (u16At q 8).toNat (prerequisitesEnd q)) ∧
      Safe (f (additionalOffset q)) := by
  have hquestions := skipMany_eq (skipRr q) (questionNext q) (fun _ => skipRr_safe)
    (fun _ => skipRr_eq) (u16At q 4).toNat 12
  have hprereq := skipMany_eq (skipRrWithRdata q) (skipNext q) (fun _ => skipRrWithRdata_safe)
    (fun _ => skipRrWithRdata_eq) (u16At q 6).toNat (questionsEnd q)
  have hupdates := skipMany_eq (skipRrFull q) (skipNext q) (fun _ => skipRrWithRdata_safe)
    (fun _ => skipRrWithRdata_eq) (u16At q 8).toNat (prerequisitesEnd q)
  unfold DynamicUpdateHandler.computeAdditionalSectionOffset
  simp only [bind_assoc, safe_bind]
  constructor
  · rintro ⟨p₁, hp₁, p₂, hp₂, p₃, hp₃, hf⟩
    have h₁ := hquestions.1.mp ⟨p₁, hp₁⟩
    obtain rfl : questionsEnd q = p₁ := Except.ok.inj ((hquestions.2 h₁).symm.trans hp₁)
    have h₂ := hprereq.1.mp ⟨p₂, hp₂⟩
    obtain rfl : prerequisitesEnd q = p₂ := Except.ok.inj ((hprereq.2 h₂).symm.trans hp₂)
    have h₃ := hupdates.1.mp ⟨p₃, hp₃⟩
    obtain rfl : additionalOffset q = p₃ := Except.ok.inj ((hupdates.2 h₃).symm.trans hp₃)
    exact ⟨⟨h₁, h₂, h₃⟩, hf⟩
  · rintro ⟨⟨h₁, h₂, h₃⟩, hf⟩
    exact ⟨_, hquestions.2 h₁, _, hprereq.2 h₂, _, hupdates.2 h₃, hf⟩

theorem buildResponse_safe (q : Bytes) (rcode : UInt8) :
    Safe (DynamicUpdateHandler.buildResponse q rcode) := by
  unfold DynamicUpdateHandler.buildResponse
  obtain ⟨parsed, hparsed⟩ := ParsedDnsQuery.parse_safe q
  rw [hparsed]
  cases parsed <;> exact safe_pure _

theorem applyParsed_safe (env : UpdateEnvironment) (q : Bytes) (update : DynamicUpdate) :
    Safe (DynamicUpdateHandler.applyParsed env q update) := by
  unfold DynamicUpdateHandler.applyParsed
  split
  · exact safe_pure _
  · split
    · exact safe_pure _
    · next rcode _ =>
      obtain ⟨response, hresponse⟩ := buildResponse_safe q rcode
      rw [hresponse]
      exact safe_pure _

/-- The handler, for a message on which the parser does not panic. -/
theorem handleUpdate_safe {handler : DynamicUpdateHandler} {env : UpdateEnvironment} {q : Bytes}
    (hparse : Safe (DynamicUpdate.parse q)) :
    Safe (handler.handleUpdate env q) ↔ (handler.refuses env q = none → HandlerFits q) := by
  unfold DynamicUpdateHandler.handleUpdate
  cases hrefuses : handler.refuses env q with
  | some text => exact iff_of_true (safe_pure _) fun h => by cases h
  | none =>
    simp only [safe_readU16_bind, computeAdditionalSectionOffset_safe, true_imp_iff]
    -- whatever the signature is, what follows is the parser
    rw [safe_bind_iff_of_safe, parseTsigFromQuery_safe]
    · constructor
      · rintro ⟨-, -, hheader, ⟨hquestions, hprereq, hupdates⟩, htsig⟩
        exact ⟨by omega, hquestions, hprereq, hupdates, htsig⟩
      · rintro ⟨hheader, hquestions, hprereq, hupdates, htsig⟩
        exact ⟨by omega, by omega, by omega, ⟨hquestions, hprereq, hupdates⟩, htsig⟩
    · intro tsig
      split
      · exact safe_pure _
      · exact safe_tryBind.mpr ⟨hparse, fun update _ => applyParsed_safe env q update⟩

/-- **Update and TSIG parsing.** The three entry points return exactly if every
    position they read by the layout of the message is in it and the number of
    updates fits into 16 bits. -/
theorem update_and_tsig_parsing_safe_iff (handler : DynamicUpdateHandler) (env : UpdateEnvironment)
    (q : Bytes) (qdEnd : Nat) :
    (Safe (parseTsigFromQuery q qdEnd) ∧ Safe (DynamicUpdate.parse q) ∧
      Safe (handler.handleUpdate env q)) ↔
    TsigFits q qdEnd ∧ (IsUpdateMessage q → UpdateFits q) ∧
      (handler.refuses env q = none → HandlerFits q) := by
  rw [parseTsigFromQuery_safe]
  refine and_congr_right fun _ => ?_
  constructor
  · rintro ⟨hparse, hhandle⟩
    exact ⟨dynamicUpdate_parse_safe.mp hparse, (handleUpdate_safe hparse).mp hhandle⟩
  · rintro ⟨hfits, hhandler⟩
    have hparse := dynamicUpdate_parse_safe.mpr hfits
    exact ⟨hparse, (handleUpdate_safe hparse).mpr hhandler⟩

/-- An enabled handler without further checks. -/
def openHandler : DynamicUpdateHandler where
  enabled := true
  allowAny := true
  requireTsig := false
  tsigVerifier := none
  allowedIps := []
  maxUpdateSize := 4096

/-- An environment in which every update succeeds. -/
def plainEnvironment : UpdateEnvironment where
  hmac := fun algorithm _ _ => List.replicate algorithm.minSecretLen 0
  sha256 := fun _ => List.replicate 32 0
  networkContains := fun _ => false
  applyUpdate := fun _ _ _ => .ok 0
  cache := .new 0
  clock := ⟨0, 0, 0, 0, 0, Nat.le_refl 0, Nat.le_refl 0, Nat.le_refl 0, Nat.le_refl 0, by decide⟩

/-- An UPDATE header with one zone, whose name is the first byte of a pointer. -/
def cutPointer : Bytes := [0, 1, 0x28, 0, 0, 1, 0, 0, 0, 0, 0, 0, 0xC0]

/-- An UPDATE header with 65535 updates and one additional record. -/
def manyUpdates : Bytes := [0, 1, 0x28, 0, 0, 0, 0, 0, 0xFF, 0xFF, 0, 1]

/-- A header, and a record whose owner name ends with the message. -/
def ownerOnly : Bytes := List.replicate 12 0 ++ 9 :: List.replicate 10 0

/-- A message of four bytes, a pointer that is cut off, a sum of 65536 and an owner
    name without a record: each of them ends in a panic. -/
theorem update_and_tsig_parsing_panics :
    ¬ Safe (openHandler.handleUpdate plainEnvironment [0, 1, 0x28, 0]) ∧
    ¬ Safe (openHandler.handleUpdate plainEnvironment cutPointer) ∧
    ¬ Safe (DynamicUpdate.parse cutPointer) ∧ ¬ Safe (DynamicUpdate.parse manyUpdates) ∧
    ¬ Safe (parseTsigFromQuery ownerOnly 12) := by
  have hpanic : ∀ {α : Type} {x : Checked α} {e : Panic}, x = .error e → ¬ Safe x := by
    rintro α x e rfl
    exact not_safe_error e
  refine ⟨hpanic (e := .index 4 4) rfl, hpanic (e := .index 13 13) rfl,
    hpanic (e := .index 13 13) rfl, hpanic (e := .overflow 65536 16) rfl,
    hpanic (e := .index 23 23) rfl⟩

end Synvoid.Dns
