import Mathlib.Logic.Function.Iterate
import Synvoid.Waf.Escapes

/-! # Percent escapes left by the decode loop

    The decode loop stops at a text that a pass does not change. Such a text
    should have no percent escape left.

    It can have one: the scan for an HTML entity behind an `&` copies up to
    ten characters, and no pass looks at them. An escape in such a text is
    always one of these, because a pass that changes nothing copies at every step,
    and every other step that copies takes one character or a backslash with a
    letter.

    Which inputs come to such a text is said of the input: an input is
    `Unshielded` if it says at no depth an `&` that starts no entity with an
    escape in what is scanned behind it. To say it, the input is read as the other
    branches of the decoder read a broken escape: the character stands for itself
    and the next ones are read on. Then the passes of the loop go the same way
    (`unshielded_iff`) and the decoding is complete (`percent_decoding_complete`).
-/

namespace Synvoid.Waf

open Synvoid.Framework

/-! ## Section 1: Escapes in a text -/

/-- The text starts with `%` and two hexadecimal digits. -/
def StartsWithEscape (s : Str) : Prop :=
  ∃ high low rest, s = '%' :: high :: low :: rest ∧
    (hexDigit high).isSome ∧ (hexDigit low).isSome

def HasEscape (text : Str) : Prop := ∃ pre s, text = pre ++ s ∧ StartsWithEscape s

/-- An escape starts in what is scanned behind an `&`. (Plus signs and null characters are
    no escapes: nothing can be written with them.) -/
def HidesEscape (rest : Str) : Prop :=
  ∃ mid c more, rest = mid ++ c :: more ∧ mid.length < hidden rest ∧ Decodable c more ∧
    c ≠ '+' ∧ c ≠ '\x00'

/-- An `&` that starts no entity hides an escape. -/
def Shields (text : Str) : Prop :=
  ∃ rest, Comes hidden text ('&' :: rest) ∧ ¬ EntityEscape rest ∧ HidesEscape rest

/-! ## Section 2: What an input says at each depth -/

open Classical in
/-- What is scanned behind an `&` is taken as it is unless an escape is in it: then the `&`
    stands for itself alone. -/
noncomputable def escapeFree (rest : Str) : Nat := if HidesEscape rest then 0 else hidden rest

/-- The text that the input says `k` escapes deep. -/
inductive Says (input : Str) : Nat → Str → Prop where
  | zero : Says input 0 input
  | succ {k : Nat} {text said : Str} : Says input k text → Reads escapeFree text said →
      Says input (k + 1) said

/-- No `&` hides an escape at any depth that the loop can come to. -/
def Unshielded (input : Str) : Prop :=
  ∀ k < maxDecodePasses, ∀ text, Says input k text → ¬ Shields text

theorem Says.unique {input text text' : Str} {k : Nat} (h : Says input k text)
    (h' : Says input k text') : text = text' := by
  induction h generalizing text' with
  | zero =>
    cases h'
    rfl
  | succ _ hreads ih =>
    cases h' with
    | succ hsaid' hreads' =>
      obtain rfl := ih hsaid'
      exact hreads.unique hreads'

/-- Where no escape is hidden, a pass reads what the text says. -/
theorem reads_escapeFree {text said : Str} (h : Reads hidden text said) (hclear : ¬ Shields text) :
    Reads escapeFree text said := by
  induction h with
  | nil => exact .nil
  | plain hne hplain _ ih =>
    refine .plain hne hplain (ih ?_)
    rintro ⟨rest, hcomes, hshields⟩
    exact hclear ⟨rest, .plain hne hplain hcomes, hshields⟩
  | escape hescape _ ih =>
    refine .escape hescape (ih ?_)
    rintro ⟨rest, hcomes, hshields⟩
    exact hclear ⟨rest, .escape hescape hcomes, hshields⟩
  | @ampersand rest said hbare _ ih =>
    have hwindow : escapeFree rest = hidden rest :=
      if_neg fun hhides => hclear ⟨rest, .here _, hbare, hhides⟩
    rw [← hwindow]
    refine .ampersand hbare ?_
    rw [hwindow]
    refine ih ?_
    rintro ⟨rest', hcomes, hshields⟩
    exact hclear ⟨rest', .ampersand hbare hcomes, hshields⟩

/-- The passes of the loop come to what the input says, as long as no escape is hidden. -/
theorem says_decodedText {input : Str} {k : Nat}
    (h : ∀ j < k, ¬ Shields (decodedText^[j] input)) : Says input k (decodedText^[k] input) := by
  induction k with
  | zero => exact .zero
  | succ k ih =>
    have hsaid := ih fun j hj => h j (Nat.lt_succ_of_lt hj)
    rw [Function.iterate_succ_apply']
    exact hsaid.succ (reads_escapeFree (reads_decodedText _) (h k (Nat.lt_succ_self k)))

/-- **What the input says decides whether a pass copies an escape unread.** -/
theorem unshielded_iff (input : Str) :
    Unshielded input ↔ ∀ k < maxDecodePasses, ¬ Shields (decodedText^[k] input) := by
  constructor
  · intro h k hk
    -- no pass before has copied one, so the text is what the input says
    induction k using Nat.strongRecOn with
    | _ k ih => exact h k hk _ (says_decodedText fun j hj => ih j hj (hj.trans hk))
  · intro h k hk text hsaid
    have hpasses := says_decodedText fun j hj => h j (hj.trans hk)
    rw [hsaid.unique hpasses]
    exact h k hk

/-! ## Section 3: Texts that a pass does not change -/

theorem StartsWithEscape.decodable {rest : Str} (h : StartsWithEscape ('%' :: rest)) :
    Decodable '%' rest := by
  obtain ⟨high, low, tail, heq, hhigh, hlow⟩ := h
  obtain rfl := (List.cons.inj heq).2
  refine .inr (.inr (.inl ⟨rfl, .inl ⟨by simp, ?_⟩⟩))
  simp [hhigh, hlow]

/-- A step that takes an escape and copies it is the scan for an entity. -/
theorem shields_of_copies {c : Char} {rest mid s : Str} (hcopy : Copies c rest (decodeStep c rest))
    (hsplit : c :: rest = mid ++ s) (hmid : mid.length < (decodeStep c rest).taken)
    (hescape : StartsWithEscape s) :
    ∃ mid', c = '&' ∧ rest = mid' ++ s ∧ mid'.length < hidden rest := by
  obtain ⟨high, low, tail, rfl, -⟩ := id hescape
  cases mid with
  | nil =>
    -- the step stands at the escape itself, and would decode it
    obtain ⟨rfl, rfl⟩ := List.cons.inj hsplit
    exact absurd hescape.decodable ((copies_iff _ _).mp hcopy)
  | cons c' mid =>
    obtain ⟨rfl, hrest⟩ := List.cons.inj hsplit
    have hstep := stepCase_decodeStep c rest
    rw [List.length_cons] at hmid
    generalize decodeStep c rest = p at hstep hcopy hmid
    cases hstep with
    | decoded h => exact absurd hcopy h.not_copies
    | single => exact absurd hmid (Nat.not_lt.mpr (Nat.le_add_left 1 _))
    | backslash x y hhead hx =>
      -- the copied characters are a backslash and a letter
      obtain rfl := List.length_eq_zero_iff.mp (Nat.lt_one_iff.mp (Nat.lt_of_succ_lt_succ hmid))
      subst hrest
      obtain rfl := Option.some.inj hhead
      simp at hx
    | scanned hc =>
      refine ⟨mid, hc, hrest, ?_⟩
      unfold hidden
      simp only at hmid
      omega

/-- An escape in a text that a pass leaves unchanged is hidden by an `&`. -/
theorem shields_of_escape {text : Str} (hfix : decodedText text = text)
    (hescape : HasEscape text) : Shields text := by
  obtain ⟨pre, s, htext, hs⟩ := hescape
  have hne : s ≠ [] := by
    obtain ⟨high, low, rest, rfl, -⟩ := hs
    simp
  -- some step takes the `%`, and it copies it
  obtain ⟨c, rest, mid, hvisits, hsplit, hmid⟩ := exists_visits advances_decodeStep text htext hne
  have hcopy : Copies c rest (decodeStep c rest) := hvisits.copies advances_decodeStep
    (fun c rest => (stepCase_decodeStep c rest).length_out_le) hfix
  obtain ⟨mid', rfl, hrest, hlt⟩ := shields_of_copies hcopy hsplit hmid hs
  have hbare := decodable_ampersand.not.mp ((copies_iff '&' rest).mp hcopy)
  refine ⟨rest, comes_of_visits hvisits, hbare, ?_⟩
  obtain ⟨high, low, tail, rfl, -⟩ := id hs
  exact ⟨mid', '%', high :: low :: tail, hrest, hlt, hs.decodable, by decide, by decide⟩

/-! ## Section 4: The loop -/

/-- Where the loop stops at a text that a pass does not change, it has come to
    that text by repeated passes. -/
theorem decodeLoop_of_fixpoint {maxOutput passes totalPasses : Nat} {text : Str}
    {flags : NormalizationFlags}
    (h : (decodeLoop maxOutput passes text totalPasses flags).exit = .fixpoint) :
    ∃ k < passes, (decodeLoop maxOutput passes text totalPasses flags).buffer =
        decodedText^[k] text ∧
      decodedText (decodedText^[k] text) = decodedText^[k] text := by
  induction passes generalizing text totalPasses flags with
  | zero => cases h
  | succ passes ih =>
    simp only [decodeLoop] at h ⊢
    split_ifs at h ⊢ with hsame hlimit
    · -- this pass changed nothing
      exact ⟨0, Nat.succ_pos _, hsame.2, hsame.2⟩
    · obtain ⟨k, hk, hbuffer, hfix⟩ := ih h
      exact ⟨k + 1, Nat.succ_lt_succ hk, hbuffer, hfix⟩

theorem normalizeLoop_exit (input : Str) :
    (normalizeLoop input).exit =
      (decodeLoop (byteLen input * maxOutputRatio) maxDecodePasses input 0 0).exit ∧
    (normalizeLoop input).buffer =
      (decodeLoop (byteLen input * maxOutputRatio) maxDecodePasses input 0 0).buffer := by
  unfold normalizeLoop
  simp only
  split_ifs <;> exact ⟨rfl, rfl⟩

/-- **Percent decoding is complete** if the input is unshielded. An input that is not is one
    for which a pass copies an escape unread. -/
theorem percent_decoding_complete (input : Str) :
    (Unshielded input →
      (normalizeLoop input).exit = .fixpoint → ¬ HasEscape (normalizeLoop input).buffer) ∧
    (¬ Unshielded input → ∃ k < maxDecodePasses, Shields (decodedText^[k] input)) := by
  refine ⟨fun hclear hstop hescape => ?_, fun hshielded => ?_⟩
  · obtain ⟨hexit, hbuffer⟩ := normalizeLoop_exit input
    rw [hexit] at hstop
    obtain ⟨k, hk, htext, hfix⟩ := decodeLoop_of_fixpoint hstop
    rw [hbuffer, htext] at hescape
    exact (unshielded_iff input).mp hclear k hk (shields_of_escape hfix hescape)
  · rw [unshielded_iff] at hshielded
    push Not at hshielded
    exact hshielded

/-- Nothing is hidden where only plain text follows each `&`. -/
theorem not_shields_of_tails {text : Str}
    (h : (text.tails.all fun s => s.head? != some '&' ||
      s.tail.all fun c => c != '%' && c != '\\' && c != '&') = true) :
    ¬ Shields text := by
  rintro ⟨rest, hcomes, -, mid, c, more, rfl, -, hescape, hplus, hnull⟩
  have hplain := List.all_eq_true.mp h _ ((List.mem_tails _ _).mpr hcomes.suffix)
  simp only [List.head?_cons, bne_self_eq_false, Bool.false_or, List.tail_cons] at hplain
  have hc := List.all_eq_true.mp hplain c (by simp)
  unfold Decodable at hescape
  simp only [Bool.and_eq_true, bne_iff_ne] at hc
  tauto

/-- An escape in an escape, and a plus sign behind an `&`. -/
def nestedQuery : Str := "%2541&b+c".toList

theorem nestedQuery_decoded :
    (normalizeLoop nestedQuery).exit = .fixpoint ∧
      (normalizeLoop nestedQuery).buffer = "A&b+c".toList ∧
      ¬ HasEscape (normalizeLoop nestedQuery).buffer := by
  have hstop : (normalizeLoop nestedQuery).exit = .fixpoint := by decide +kernel
  refine ⟨hstop, by decide +kernel, (percent_decoding_complete nestedQuery).1 ?_ hstop⟩
  refine (unshielded_iff nestedQuery).mpr fun k hk => not_shields_of_tails ?_
  revert k
  decide +kernel

/-- `&%41` is not changed by a pass and keeps its escape. -/
theorem percent_escape_left_behind_ampersand :
    (normalizeLoop "&%41".toList).exit = .fixpoint ∧
      (normalizeLoop "&%41".toList).buffer = "&%41".toList ∧
      HasEscape (normalizeLoop "&%41".toList).buffer := by
  refine ⟨rfl, rfl, ['&'], "%41".toList, rfl, '4', '1', [], rfl, rfl, rfl⟩

end Synvoid.Waf
