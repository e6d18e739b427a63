import Synvoid.Waf.Normalizer

/-! # What a text says

    `Decodable` lists what there is to decode: null characters, plus signs, and
    the escapes behind `%`, `\` and `&`. It does not refer to the decoder, and a
    step of the decoder copies just when there is nothing to decode where it
    stands (`copies_iff`).

    `Reads` is what a text says to a reader: an escape stands for a character,
    every other character for itself. The reader has to know how much of the text
    is taken as it is behind an `&` that starts no entity. A pass of the decoder
    is the reader that takes as it is all that it has scanned (`reads_iff`).
-/

namespace Synvoid.Waf

open Synvoid.Framework

/-! ## Section 1: What there is to decode -/

/-- The text starts with `n` hexadecimal digits. -/
def StartsHex (n : Nat) (s : Str) : Prop :=
  n ≤ s.length ∧ ∀ d ∈ s.take n, (hexDigit d).isSome = true

/-- Behind `%`: two digits, or `u` and four. -/
def PercentEscape (rest : Str) : Prop :=
  StartsHex 2 rest ∨ rest.head? = some 'u' ∧ StartsHex 4 rest.tail

/-- Behind a backslash: `x` with two digits, `u` with four, `n`, `r`, `t`, an
    octal number of a byte. The letters `X` and `U` are changed in any case. -/
def BackslashEscape (rest : Str) : Prop :=
  ∃ c more, rest = c :: more ∧
    (c = 'x' ∧ StartsHex 2 more ∨ c = 'X' ∨ c = 'u' ∧ StartsHex 4 more ∨ c = 'U' ∨
      c = 'n' ∨ c = 'r' ∨ c = 't' ∨
      ('0' ≤ c ∧ c ≤ '7') ∧ octalValue (octalDigits (c :: more)) ≤ 255)

/-- Behind `&`: the name of an entity, and a semicolon, in the next ten
    characters. -/
def EntityEscape (rest : Str) : Prop :=
  ∃ name more, rest = name ++ ';' :: more ∧ ';' ∉ name ∧ name.length < 10 ∧
    (decodeHtmlEntitySimple name).isSome = true

/-- The text `c :: rest` starts with something to decode. -/
def Decodable (c : Char) (rest : Str) : Prop :=
  c = '\x00' ∨ c = '+' ∨ c = '%' ∧ PercentEscape rest ∨ c = '\\' ∧ BackslashEscape rest ∨
    c = '&' ∧ EntityEscape rest

/-! ## Section 2: Steps that copy -/

/-- What the step writes is what it took. -/
def Copies (c : Char) (rest : Str) (p : DecodePiece) : Prop := p.out = (c :: rest).take p.taken

section copies
variable {c : Char} {rest : Str}

theorem Decoded.not_copies {p : DecodePiece} (h : Decoded rest p) : ¬ Copies c rest p := by
  intro hcopies
  have hlen := congrArg List.length hcopies
  rw [List.length_take_of_le (by simpa using h.le)] at hlen
  exact absurd hlen (Nat.ne_of_lt h.shorter)

theorem copies_emitChar (c : Char) (rest : Str) : Copies c rest (emitChar c 1) := rfl

/-! ### Digits -/

theorem hexCharsToU8_ne_none_iff : hexCharsToU8 (rest.take 2) ≠ none ↔ StartsHex 2 rest := by
  unfold StartsHex
  match rest with
  | [] => simp [hexCharsToU8]
  | [_] => simp [hexCharsToU8]
  | high :: low :: rest =>
    rcases hhigh : hexDigit high with _ | _ <;> rcases hlow : hexDigit low with _ | _ <;>
      simp [hexCharsToU8, hhigh, hlow]

theorem foldlM_hex_isSome (chars : Str) (start : Nat) :
    (chars.foldlM (fun result c => (hexDigit c).map (result * 16 + ·)) start).isSome = true ↔
      ∀ d ∈ chars, (hexDigit d).isSome = true := by
  induction chars generalizing start with
  | nil => simp
  | cons c chars ih =>
    rw [List.foldlM_cons, List.forall_mem_cons]
    cases hc : hexDigit c with
    | none => simp
    | some v => simpa using ih (start * 16 + v)

theorem unicodeEscape_ne_none_iff : unicodeEscape rest ≠ none ↔ StartsHex 4 rest := by
  unfold unicodeEscape StartsHex
  split_ifs with hlen
  · have hfour : (rest.take 4).length ≤ 8 := (List.length_take_le 4 rest).trans (by decide)
    unfold hexCharsToU32
    rw [if_neg (by omega), ← Option.isSome_iff_ne_none, foldlM_hex_isSome]
    exact ⟨fun h => ⟨hlen, h⟩, And.right⟩
  · exact ⟨fun h => absurd rfl h, fun h => absurd h.1 hlen⟩

/-! ### Percent signs -/

/-- Behind two digits, a percent sign is not copied. -/
theorem StepCase.not_copies_percent {p : DecodePiece} (h : StepCase '%' rest p)
    (hhex : hexCharsToU8 (rest.take 2) ≠ none) : ¬ Copies '%' rest p := by
  cases h with
  | decoded h => exact h.not_copies
  | single ch hsize hbroken => exact absurd (hbroken rfl) hhex
  | backslash x y =>
    intro hcopies
    exact absurd (List.cons.inj hcopies).1 (by decide)
  | scanned hc => exact absurd hc (by decide)

theorem decodePercent_copies_iff (rest : Str) :
    Copies '%' rest (decodePercent rest) ↔ ¬ PercentEscape rest := by
  have hstep := stepCase_decodePercent rest
  by_cases hhex : hexCharsToU8 (rest.take 2) = none
  -- without two digits only `%uXXXX` is left
  · have htwo : ¬ StartsHex 2 rest := fun h => hexCharsToU8_ne_none_iff.mpr h hhex
    unfold decodePercent
    simp only
    split
    · next codePoint hcode =>
      split_ifs at hcode with hu
      have hlen := four_le_length_of_unicodeEscape hcode
      rw [List.length_tail] at hlen
      have hdecoded : Decoded rest (emitCodePoint codePoint 6) :=
        decoded_emitCodePoint codePoint (by omega) (by decide)
      refine iff_of_false hdecoded.not_copies (not_not.mpr (Or.inr ⟨hu, ?_⟩))
      exact unicodeEscape_ne_none_iff.mp (by rw [hcode]; simp)
    · next hcode =>
      rw [hhex]
      refine iff_of_true (copies_emitChar '%' rest) ?_
      rintro (h | ⟨hu, hfour⟩)
      · exact htwo h
      · rw [if_pos hu] at hcode
        exact unicodeEscape_ne_none_iff.mpr hfour hcode
  · exact iff_of_false (hstep.not_copies_percent hhex)
      (not_not.mpr (Or.inl (hexCharsToU8_ne_none_iff.mp hhex)))

/-! ### Backslashes -/

theorem decodeOctal_copies_iff {c : Char} (rest : Str) (hdigit : '0' ≤ c ∧ c ≤ '7') :
    Copies '\\' (c :: rest) (decodeOctal (octalDigits (c :: rest))) ↔
      ¬ octalValue (octalDigits (c :: rest)) ≤ 255 := by
  have hfirst : octalDigits (c :: rest) =
      c :: (rest.take 2).takeWhile fun c => '0' ≤ c ∧ c ≤ '7' := by
    simp [octalDigits, hdigit]
  have hlen : ((rest.take 2).takeWhile fun c => '0' ≤ c ∧ c ≤ '7').length ≤ rest.length :=
    Nat.le_trans (List.takeWhile_sublist _).length_le (List.take_sublist _ _).length_le
  unfold decodeOctal
  by_cases hvalue : octalValue (octalDigits (c :: rest)) ≤ 255
  · rw [if_pos hvalue]
    have hdecoded :
        Decoded (c :: rest) (emitByte (UInt8.ofNat (octalValue (octalDigits (c :: rest))))
          (1 + (octalDigits (c :: rest)).length)) := by
      apply decoded_emitByte
      · rw [hfirst]
        simp only [List.length_cons]
        omega
      · rw [hfirst]
        simp only [List.length_cons]
        omega
    exact iff_of_false hdecoded.not_copies (not_not.mpr hvalue)
  · rw [if_neg hvalue]
    exact iff_of_true (copies_emitChar '\\' _) hvalue

/-- A broken escape is copied if its letter is the one that is written. -/
theorem copies_pair_iff (c y : Char) (rest : Str) :
    Copies '\\' (c :: rest) ⟨['\\', y], 2, 0⟩ ↔ c = y := by
  unfold Copies
  simp [eq_comm]

theorem decodeBackslash_copies_iff (rest : Str) :
    Copies '\\' rest (decodeBackslash rest) ↔ ¬ BackslashEscape rest := by
  cases rest with
  | nil =>
    refine iff_of_true rfl ?_
    rintro ⟨c, more, h, -⟩
    cases h
  | cons c rest =>
    have hescape : BackslashEscape (c :: rest) ↔
        (c = 'x' ∧ StartsHex 2 rest ∨ c = 'X' ∨ c = 'u' ∧ StartsHex 4 rest ∨ c = 'U' ∨
          c = 'n' ∨ c = 'r' ∨ c = 't' ∨
          ('0' ≤ c ∧ c ≤ '7') ∧ octalValue (octalDigits (c :: rest)) ≤ 255) := by
      constructor
      · rintro ⟨c', more, heq, h⟩
        obtain ⟨rfl, rfl⟩ := List.cons.inj heq
        exact h
      · intro h
        exact ⟨c, rest, rfl, h⟩
    have hcontrol : ∀ ch : Char, ch.utf8Size = 1 → ¬ Copies '\\' (c :: rest) (emitChar ch 2) := by
      intro ch hsize
      have hdecoded : Decoded (c :: rest) (emitChar ch 2) :=
        decoded_emitChar (by simp) (by decide) (by omega)
      exact hdecoded.not_copies
    rw [hescape]
    simp only [decodeBackslash]
    split_ifs with hx hu hn hr ht hdigit
    -- two digits behind `x` or `X`; a broken `X` is written in lower case
    · split
      · next byte hbyte =>
        have hlen := two_le_length_of_hexCharsToU8 hbyte
        have hdecoded : Decoded (c :: rest) (emitByte byte 4) :=
          decoded_emitByte byte (by simp only [List.length_cons]; omega) (by decide)
        have htwo : StartsHex 2 rest := hexCharsToU8_ne_none_iff.mp (by rw [hbyte]; simp)
        refine iff_of_false hdecoded.not_copies (not_not.mpr ?_)
        rcases hx with rfl | rfl
        · exact Or.inl ⟨rfl, htwo⟩
        · exact Or.inr (Or.inl rfl)
      · next hbroken =>
        have htwo : ¬ StartsHex 2 rest := fun h => hexCharsToU8_ne_none_iff.mpr h hbroken
        rw [copies_pair_iff]
        rcases hx with rfl | rfl
        · simp [htwo]
        · simp
    -- four digits behind `u` or `U`, in the same way
    · split
      · next codePoint hcode =>
        have hlen := four_le_length_of_unicodeEscape hcode
        have hdecoded : Decoded (c :: rest) (emitCodePoint codePoint 6) :=
          decoded_emitCodePoint codePoint (by simp only [List.length_cons]; omega) (by decide)
        have hfour : StartsHex 4 rest := unicodeEscape_ne_none_iff.mp (by rw [hcode]; simp)
        refine iff_of_false hdecoded.not_copies (not_not.mpr ?_)
        rcases hu with rfl | rfl
        · exact Or.inr (Or.inr (Or.inl ⟨rfl, hfour⟩))
        · exact Or.inr (Or.inr (Or.inr (Or.inl rfl)))
      · next hbroken =>
        have hfour : ¬ StartsHex 4 rest := fun h => unicodeEscape_ne_none_iff.mpr h hbroken
        rw [copies_pair_iff]
        rcases hu with rfl | rfl
        · simp [hfour]
        · simp
    · exact iff_of_false (hcontrol '\n' (by decide)) (by simp [hn])
    · exact iff_of_false (hcontrol '\r' (by decide)) (by simp [hr])
    · exact iff_of_false (hcontrol '\t' (by decide)) (by simp [ht])
    -- octal digits stand for a byte if their value is one
    · rw [decodeOctal_copies_iff rest hdigit]
      simp only [not_or] at hx hu
      simp [hx, hu, hn, hr, ht, hdigit]
    · simp only [not_or] at hx hu
      refine iff_of_true (copies_emitChar '\\' _) ?_
      simp [hx, hu, hn, hr, ht, hdigit]

/-! ### Entities -/

/-- The scan finds the first semicolon, if it is among the next `n`
    characters. -/
theorem scanEntity_iff (n : Nat) (rest name : Str) :
    scanEntity n rest = (name, true) ↔
      ∃ more, rest = name ++ ';' :: more ∧ ';' ∉ name ∧ name.length < n := by
  induction n generalizing rest name with
  | zero => simp [scanEntity]
  | succ n ih =>
    cases rest with
    | nil => simp [scanEntity]
    | cons c rest =>
      rw [scanEntity]
      by_cases hc : c = ';'
      · subst hc
        rw [if_pos rfl]
        constructor
        · intro h
          obtain rfl : [] = name := (Prod.mk.inj h).1
          exact ⟨rest, rfl, by simp, by simp⟩
        · rintro ⟨more, hrest, hnot, -⟩
          cases name with
          | nil => rfl
          | cons d name =>
            obtain ⟨rfl, -⟩ := List.cons.inj hrest
            simp at hnot
      · rw [if_neg hc]
        constructor
        · intro h
          obtain ⟨hname, hfound⟩ := Prod.mk.inj h
          obtain ⟨more, hrest, hnot, hlen⟩ := (ih rest _).mp (Prod.ext rfl hfound)
          subst hname
          refine ⟨more, by rw [List.cons_append, ← hrest], ?_, by simpa using hlen⟩
          simp [Ne.symm hc, hnot]
        · rintro ⟨more, hrest, hnot, hlen⟩
          cases name with
          | nil => exact absurd (List.cons.inj hrest).1 hc
          | cons d name =>
            obtain ⟨rfl, htail⟩ := List.cons.inj hrest
            rw [(ih rest name).mpr ⟨more, htail, fun h => hnot (List.mem_cons_of_mem _ h),
              Nat.lt_of_succ_lt_succ (by simpa using hlen)⟩]

theorem entityEscape_iff (rest : Str) :
    EntityEscape rest ↔ (scanEntity 10 rest).2 = true ∧
      (decodeHtmlEntitySimple (scanEntity 10 rest).1).isSome = true := by
  constructor
  · rintro ⟨name, more, hrest, hnot, hlen, hname⟩
    have hscan := (scanEntity_iff 10 rest name).mpr ⟨more, hrest, hnot, hlen⟩
    rw [hscan]
    exact ⟨rfl, hname⟩
  · intro ⟨hfound, hname⟩
    obtain ⟨more, hrest, hnot, hlen⟩ := (scanEntity_iff 10 rest _).mp (Prod.ext rfl hfound)
    exact ⟨_, more, hrest, hnot, hlen, hname⟩

theorem decodeAmpersand_copies_iff (rest : Str) :
    Copies '&' rest (decodeAmpersand rest) ↔ ¬ EntityEscape rest := by
  have hle := (scanned_prefix_rest rest).length_le
  rw [entityEscape_iff]
  unfold decodeAmpersand
  simp only
  split
  · next ch hch =>
    split_ifs at hch with hfound
    have htwo := two_le_length_of_entity hch
    have hlen : (scanned rest).length = (scanEntity 10 rest).1.length + 1 := by
      simp [scanned, hfound]
    have hescape : (scanEntity 10 rest).2 = true ∧
        (decodeHtmlEntitySimple (scanEntity 10 rest).1).isSome = true := by
      rw [hch]
      exact ⟨hfound, rfl⟩
    refine iff_of_false ?_ (not_not.mpr hescape)
    split_ifs
    · exact (decoded_dropNull (by omega) (by omega)).not_copies
    · exact (decoded_emitChar (by omega) (by omega)
        (Nat.le_trans ch.utf8Size_le_four (by omega))).not_copies
  · next hnone =>
    -- what was scanned is written out as it is
    refine iff_of_true ?_ ?_
    · unfold Copies
      rw [Nat.add_comm, List.take_succ_cons,
        ← List.prefix_iff_eq_take.mp (scanned_prefix_rest rest)]
    · rintro ⟨hfound, hname⟩
      rw [if_pos hfound] at hnone
      rw [hnone] at hname
      cases hname

/-! ### All steps -/

/-- **A step copies** just when there is nothing to decode where it stands. -/
theorem copies_iff (c : Char) (rest : Str) :
    Copies c rest (decodeStep c rest) ↔ ¬ Decodable c rest := by
  unfold decodeStep Decodable
  split_ifs with hpercent hplus hbackslash hamp hnull
  · subst hpercent
    rw [decodePercent_copies_iff]
    simp
  · subst hplus
    exact iff_of_false (fun h => absurd (List.cons.inj h).1 (by decide)) (by simp)
  · subst hbackslash
    rw [decodeBackslash_copies_iff]
    simp
  · subst hamp
    rw [decodeAmpersand_copies_iff]
    simp
  · subst hnull
    exact iff_of_false (decoded_dropNull (by omega) (by decide)).not_copies (by simp)
  · exact iff_of_true (copies_emitChar c rest) (by simp [hpercent, hplus, hbackslash, hamp, hnull])

end copies

/-- The text after a pass. -/
def decodedText (text : Str) : Str := (decodeSinglePass text).1


/-- How much the scan behind an `&` goes over. -/
def hidden (rest : Str) : Nat := (scanned rest).length

section reading
variable (window : Str → Nat)

/-- **What a text says.** Behind an `&` that starts no entity, `window` characters
    are taken as they are. -/
inductive Reads : Str → Str → Prop where
  | nil : Reads [] []
  | plain {c : Char} {rest said : Str} : c ≠ '&' → ¬ Decodable c rest → Reads rest said →
      Reads (c :: rest) (c :: said)
  | escape {c : Char} {rest said : Str} : Decodable c rest →
      Reads ((c :: rest).drop (decodeStep c rest).taken) said →
      Reads (c :: rest) ((decodeStep c rest).out ++ said)
  | ampersand {rest said : Str} : ¬ EntityEscape rest → Reads (rest.drop (window rest)) said →
      Reads ('&' :: rest) ('&' :: rest.take (window rest) ++ said)

/-- The places of the text that a reader comes to. -/
inductive Comes : Str → Str → Prop where
  | here (s : Str) : Comes s s
  | plain {c : Char} {rest s : Str} : c ≠ '&' → ¬ Decodable c rest → Comes rest s →
      Comes (c :: rest) s
  | escape {c : Char} {rest s : Str} : Decodable c rest →
      Comes ((c :: rest).drop (decodeStep c rest).taken) s → Comes (c :: rest) s
  | ampersand {rest s : Str} : ¬ EntityEscape rest → Comes (rest.drop (window rest)) s →
      Comes ('&' :: rest) s

end reading

theorem decodable_ampersand {rest : Str} : Decodable '&' rest ↔ EntityEscape rest := by
  simp [Decodable]

theorem Reads.unique {window : Str → Nat} {text said said' : Str} (h : Reads window text said)
    (h' : Reads window text said') : said = said' := by
  induction h generalizing said' with
  | nil =>
    cases h'
    rfl
  | plain hne hplain _ ih =>
    cases h' with
    | plain _ _ hrest => rw [ih hrest]
    | escape hescape => exact absurd hescape hplain
    | ampersand => exact absurd rfl hne
  | escape hescape _ ih =>
    cases h' with
    | plain _ hplain => exact absurd hescape hplain
    | escape _ hrest => rw [ih hrest]
    | ampersand hbare => exact absurd (decodable_ampersand.mp hescape) hbare
  | ampersand hbare _ ih =>
    cases h' with
    | plain hne => exact absurd rfl hne
    | escape hescape => exact absurd (decodable_ampersand.mp hescape) hbare
    | ampersand _ hrest => rw [ih hrest]

theorem Comes.suffix {window : Str → Nat} {text s : Str} (h : Comes window text s) :
    s <:+ text := by
  induction h with
  | here s => exact List.suffix_rfl
  | plain _ _ _ ih => exact ih.trans (List.suffix_cons _ _)
  | escape _ _ ih => exact ih.trans (List.drop_suffix _ _)
  | ampersand _ _ ih => exact (ih.trans (List.drop_suffix _ _)).trans (List.suffix_cons _ _)

/-! ### The steps of a pass -/

section passes
variable {c : Char} {rest : Str}

theorem decodedText_cons (c : Char) (rest : Str) :
    decodedText (c :: rest) = (decodeStep c rest).out ++
      decodedText ((c :: rest).drop (decodeStep c rest).taken) :=
  rewrite_cons advances_decodeStep c rest

/-- Behind an `&` that starts no entity, what was scanned is copied. -/
theorem decodeStep_bare (h : ¬ EntityEscape rest) :
    (decodeStep '&' rest).taken = hidden rest + 1 ∧
      (decodeStep '&' rest).out = '&' :: rest.take (hidden rest) := by
  have hcopies := (copies_iff '&' rest).mpr (decodable_ampersand.not.mpr h)
  have htaken : (decodeStep '&' rest).taken = hidden rest + 1 := by
    show (decodeAmpersand rest).taken = _
    unfold decodeAmpersand hidden
    simp only
    split
    · split_ifs <;> exact Nat.add_comm _ _
    · exact Nat.add_comm _ _
  refine ⟨htaken, ?_⟩
  rw [hcopies, htaken, List.take_succ_cons]

/-- A step at a plain character takes it alone, or a backslash with the letter of a broken
    escape. -/
theorem decodeStep_plain (hne : c ≠ '&') (hplain : ¬ Decodable c rest) :
    (decodeStep c rest).taken = 1 ∨ (decodeStep c rest).taken = 2 ∧
      ∃ x more, rest = x :: more ∧ x ≠ '&' ∧ ¬ Decodable x more ∧
        (decodeStep x more).taken = 1 := by
  have hcopies := (copies_iff c rest).mpr hplain
  have hstep := stepCase_decodeStep c rest
  generalize decodeStep c rest = p at hstep hcopies
  cases hstep with
  | decoded h => exact absurd hcopies h.not_copies
  | single => exact .inl rfl
  | backslash x y hhead hx =>
    obtain ⟨more, rfl⟩ := List.head?_eq_some_iff.mp hhead
    refine .inr ⟨rfl, x, more, rfl, ?_⟩
    simp only [List.mem_cons, List.not_mem_nil, or_false] at hx
    rcases hx with rfl | rfl | rfl | rfl <;>
      exact ⟨by decide, by simp [Decodable], by simp [decodeStep, emitChar]⟩
  | scanned hc => exact absurd hc hne

theorem decodedText_plain (hne : c ≠ '&') (hplain : ¬ Decodable c rest) :
    decodedText (c :: rest) = c :: decodedText rest := by
  have hcopies := (copies_iff c rest).mpr hplain
  rw [decodedText_cons, hcopies]
  rcases decodeStep_plain hne hplain with hone | ⟨htwo, x, more, rfl, hx, hplain', hone⟩
  · rw [hone]
    rfl
  · have hcopies' := (copies_iff x more).mpr hplain'
    rw [htwo, decodedText_cons x more, hcopies', hone]
    rfl

theorem decodedText_bare (h : ¬ EntityEscape rest) :
    decodedText ('&' :: rest) = '&' :: rest.take (hidden rest) ++
      decodedText (rest.drop (hidden rest)) := by
  obtain ⟨htaken, hout⟩ := decodeStep_bare h
  rw [decodedText_cons, htaken, hout, List.drop_succ_cons]

end passes

/-- A pass is a reader that takes as it is what it has scanned. -/
theorem reads_decodedText (text : Str) : Reads hidden text (decodedText text) := by
  induction hn : text.length using Nat.strongRecOn generalizing text with
  | _ n ih =>
    cases text with
    | nil => exact .nil
    | cons c rest =>
      have hlength : (c :: rest).length = rest.length + 1 := rfl
      by_cases hescape : Decodable c rest
      · rw [decodedText_cons]
        refine .escape hescape (ih _ ?_ _ rfl)
        have hpos := advances_decodeStep.pos c rest
        rw [List.length_drop]
        omega
      · by_cases hc : c = '&'
        · subst hc
          have hbare := decodable_ampersand.not.mp hescape
          rw [decodedText_bare hbare]
          refine .ampersand hbare (ih _ ?_ _ rfl)
          rw [List.length_drop]
          omega
        · rw [decodedText_plain hc hescape]
          exact .plain hc hescape (ih _ (by omega) _ rfl)

theorem comes_of_visits {text : Str} {c : Char} {rest : Str}
    (h : Visits decodeStep text c rest) : Comes hidden text (c :: rest) := by
  induction h with
  | here x xs => exact .here _
  | @later y ys x xs _ ih =>
    by_cases hescape : Decodable y ys
    · exact .escape hescape ih
    · by_cases hy : y = '&'
      · subst hy
        have hbare := decodable_ampersand.not.mp hescape
        rw [(decodeStep_bare hbare).1, List.drop_succ_cons] at ih
        exact .ampersand hbare ih
      · rcases decodeStep_plain hy hescape with hone | ⟨htwo, x', more, rfl, hx, hplain, -⟩
        · rw [hone] at ih
          exact .plain hy hescape ih
        · rw [htwo] at ih
          exact .plain hy hescape (.plain hx hplain ih)

end Synvoid.Waf
