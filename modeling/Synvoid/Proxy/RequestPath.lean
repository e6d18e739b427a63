import Synvoid.Framework.Parts
import Synvoid.Framework.ValidUtf8
import Synvoid.Http.Grammar

/-! # Request paths on their way to a backend

    Model of `sanitize_request_path` of `synvoid-proxy/src/headers.rs`. The path
    is read item by item: a slash, a byte (written as it is, percent-encoded or
    as overlong UTF-8), or a percent sign without two digits behind it. Bytes
    make up the pieces between the slashes. Slashes and broken escapes go to
    the result, and in a second loop the pieces do, `.` and `..` resolved.

    A slash that is decoded is a byte of a piece. So the pieces are compared
    with `.` and `..` as wholes, and a part of one is not. The second loop keeps a
    tidy result tidy (`foldl_addSegment_tidy`) if every piece is harmless, or if
    `..` pieces behind it take it back.
-/

namespace Synvoid.Proxy

open Synvoid.Framework Synvoid.Http

def slash : UInt8 := 0x2F
def dot : UInt8 := 0x2E
def percent : UInt8 := 0x25

/-! ## Section 1: Reading a path -/

inductive PathItem where
  | slash
  | byte (b : UInt8)
  | broken (escape : Bytes)
  deriving DecidableEq, Repr

/-- `u8::from_str_radix` of each of two bytes, put together. -/
def hexByte (h l : UInt8) : Option UInt8 := do
  let h ← hexDigit (Char.ofNat h.toNat)
  let l ← hexDigit (Char.ofNat l.toNat)
  return UInt8.ofNat h <<< 4 ||| UInt8.ofNat l

/-- An escape of a continuation byte. -/
def readContinuation : Bytes → Option (UInt8 × Bytes)
  | 0x25 :: h :: l :: rest => do
    let b ← hexByte h l
    if b &&& 0xC0 = 0x80 then some (b, rest) else none
  | _ => none

def readContinuations : Nat → Bytes → Option (Bytes × Bytes)
  | 0, rest => some ([], rest)
  | n + 1, rest => do
    let (b, rest) ← readContinuation rest
    let (seq, rest) ← readContinuations n rest
    return (b :: seq, rest)

/-- The length of the sequence that a byte starts. -/
def expectedLen (decoded : UInt8) : Nat :=
  if decoded &&& 0xE0 = 0xC0 then 2
  else if decoded &&& 0xF0 = 0xE0 then 3
  else if decoded &&& 0xF8 = 0xF0 then 4
  else 0

def codepoint : Bytes → Nat
  | [b₀, b₁] => (b₀ &&& 0x1F).toNat <<< 6 ||| (b₁ &&& 0x3F).toNat
  | [b₀, b₁, b₂] =>
    (b₀ &&& 0x0F).toNat <<< 12 ||| (b₁ &&& 0x3F).toNat <<< 6 ||| (b₂ &&& 0x3F).toNat
  | [b₀, b₁, b₂, b₃] =>
    (b₀ &&& 0x07).toNat <<< 18 ||| (b₁ &&& 0x3F).toNat <<< 12 ||| (b₂ &&& 0x3F).toNat <<< 6 |||
      (b₃ &&& 0x3F).toNat
  | _ => 0xFFFD

/-- The escapes of a sequence that stands for an ASCII character, and what is
    behind it. For the null character there is no byte. -/
def overlong (decoded : UInt8) (rest : Bytes) : Option (Option UInt8 × Bytes) :=
  if 0xC0 ≤ decoded ∧ decoded ≤ 0xFD ∧ expectedLen decoded > 1 then do
    let (seq, rest) ← readContinuations (expectedLen decoded - 1) rest
    let code := codepoint (decoded :: seq)
    if code = 0 then some (none, rest)
    else
      let ch ← charFromU32 code
      if ch.toNat < 0x80 then some (some (UInt8.ofNat ch.toNat), rest) else none
  else none

/-- The item at a byte of the path, if there is one, and what is behind it. -/
def nextItem (b : UInt8) (rest : Bytes) : Option PathItem × Bytes :=
  if b = percent then
    match rest with
    | h :: l :: rest =>
      match hexByte h l with
      | some decoded =>
        if decoded = 0 then (none, rest)
        else
          match overlong decoded rest with
          | some (b, rest) => (b.map .byte, rest)
          | none => (some (.byte decoded), rest)
      | none => (some (.broken [percent, h, l]), rest)
    | [h] => (some (.broken [percent, h]), [])
    | [] => (some (.broken [percent]), [])
  else if b = slash then (some .slash, rest)
  else if b < 0x20 then (none, rest)
  else (some (.byte b), rest)

def itemsFrom : Nat → Bytes → List PathItem
  | fuel + 1, b :: rest => (nextItem b rest).1.toList ++ itemsFrom fuel (nextItem b rest).2
  | _, _ => []

def pathItems (bytes : Bytes) : List PathItem := itemsFrom bytes.length bytes

/-! ## Section 2: The two loops -/

structure SanitizeState where
  result : Bytes
  segments : List Bytes
  currentSegment : Bytes

namespace SanitizeState

/-- A segment that is not empty is put behind the others. -/
def endSegment (st : SanitizeState) : List Bytes :=
  if st.currentSegment = [] then st.segments else st.segments ++ [st.currentSegment]

def step (st : SanitizeState) : PathItem → SanitizeState
  | .byte b => { st with currentSegment := st.currentSegment ++ [b] }
  | .broken escape => { st with result := st.result ++ escape }
  | .slash =>
    { result := st.result.rdropWhile (· == Proxy.slash) ++ [Proxy.slash]
      segments := st.endSegment
      currentSegment := [] }

end SanitizeState

/-- `truncate` at the last slash, if there is one. -/
def truncateAtLast (result : Bytes) : Bytes :=
  if slash ∈ result then (result.rdropWhile (· != slash)).dropLast else result

def addSegment (result segment : Bytes) : Bytes :=
  if segment = [dot, dot] then truncateAtLast result
  else if segment = [dot] then result
  else if segment ≠ [] then
    (if result = [] ∨ result.getLast? ≠ some slash then result ++ [slash] else result) ++ segment
  else result

/-- Nothing to decode, to resolve or to take out. -/
def fastPath (path : Str) : Bool :=
  !(utf8 path).any (fun b => b = percent || b = dot || b < 0x20) && !decide (['/', '/'] <:+: path)

/-- With `nfkc` for the normalisation of a text. -/
def sanitizeRequestPath (nfkc : Str → Str) (path : Str) : Str :=
  if path = [] then []
  else if fastPath path then nfkc path
  else
    let st := (pathItems (utf8 path)).foldl SanitizeState.step ⟨[], [], []⟩
    let result := st.endSegment.foldl addSegment st.result
    if result = [] then nfkc ['/'] else nfkc (validText result)

/-- Split at slashes, a text has no segment `.` or `..` and no empty one between
    two slashes. -/
def NoTraversal (text : Str) : Prop :=
  Tidy '/' (fun part => part = ['.'] ∨ part = ['.', '.']) text

/-! ## Section 3: What a path is made of -/

/-- The decoded text between slashes of the path, without broken escapes. -/
def piecesFrom (current : Bytes) : List PathItem → List Bytes
  | [] => if current = [] then [] else [current]
  | .byte b :: items => piecesFrom (current ++ [b]) items
  | .broken _ :: items => piecesFrom current items
  | .slash :: items => (if current = [] then [] else [current]) ++ piecesFrom [] items

def pieces (path : Str) : List Bytes := piecesFrom [] (pathItems (utf8 path))

def IsDots (part : Bytes) : Prop := part = [dot] ∨ part = [dot, dot]

instance (part : Bytes) : Decidable (IsDots part) := inferInstanceAs (Decidable (_ ∨ _))

/-- The piece is `.` or `..`, or, split at the slashes that were decoded, it has no bad
    part, and no empty part before the last one. -/
def HarmlessPiece (bad : Bytes → Prop) (piece : Bytes) : Prop :=
  IsDots piece ∨ TidyBehind slash bad piece

/-- How many parts a piece puts into the result, at most. -/
def partCount (piece : Bytes) : Nat := if IsDots piece then 0 else piece.count slash + 1

/-- Some of the pieces behind have as many `..` among them as there are parts to take
    back. -/
def TakenBack (piece : Bytes) (behind : List Bytes) : Prop :=
  ∃ front, front <+: behind ∧ ((piece :: front).map partCount).sum ≤ front.count [dot, dot]

/-! ### Items -/

theorem length_of_readContinuation {bytes rest : Bytes} {b : UInt8}
    (h : readContinuation bytes = some (b, rest)) : rest.length < bytes.length := by
  unfold readContinuation at h
  split at h
  · next h' l rest' =>
    rw [Option.bind_eq_bind, Option.bind_eq_some_iff] at h
    obtain ⟨decoded, -, h⟩ := h
    split at h
    · cases h
      simp
      omega
    · cases h
  · cases h

theorem length_of_readContinuations {n : Nat} {bytes seq rest : Bytes}
    (h : readContinuations n bytes = some (seq, rest)) : rest.length ≤ bytes.length := by
  induction n generalizing bytes seq with
  | zero =>
    cases h
    exact Nat.le_refl _
  | succ n ih =>
    rw [readContinuations, Option.bind_eq_bind, Option.bind_eq_some_iff] at h
    obtain ⟨⟨b, more⟩, hmore, h⟩ := h
    rw [Option.bind_eq_bind, Option.bind_eq_some_iff] at h
    obtain ⟨⟨tail, rest'⟩, hrest, h⟩ := h
    cases h
    exact (ih hrest).trans (length_of_readContinuation hmore).le

theorem length_of_overlong {decoded : UInt8} {bytes rest : Bytes} {b : Option UInt8}
    (h : overlong decoded bytes = some (b, rest)) : rest.length ≤ bytes.length := by
  unfold overlong at h
  split at h
  · rw [Option.bind_eq_bind, Option.bind_eq_some_iff] at h
    obtain ⟨⟨seq, more⟩, hmore, h⟩ := h
    have hle := length_of_readContinuations hmore
    simp only at h
    split at h
    · cases h
      exact hle
    · rw [Option.bind_eq_bind, Option.bind_eq_some_iff] at h
      obtain ⟨ch, -, h⟩ := h
      split at h
      · cases h
        exact hle
      · cases h
  · cases h

/-- An item takes bytes off the path. -/
theorem length_nextItem (b : UInt8) (rest : Bytes) : (nextItem b rest).2.length ≤ rest.length := by
  unfold nextItem
  split
  · split
    · next h l rest =>
      split
      · next decoded _ =>
        split
        · simp
          omega
        · split
          · next b rest' hoverlong =>
            have hle := length_of_overlong hoverlong
            simp only [List.length_cons]
            omega
          · simp
            omega
      · simp
        omega
    · simp
    · simp
  · split_ifs <;> simp

/-- The length of the path is enough fuel, and more does not change the items. -/
theorem itemsFrom_eq {fuel more : Nat} {bytes : Bytes} (hfuel : bytes.length ≤ fuel)
    (hmore : bytes.length ≤ more) : itemsFrom fuel bytes = itemsFrom more bytes := by
  induction fuel generalizing bytes more with
  | zero =>
    obtain rfl := List.length_eq_zero_iff.mp (Nat.le_zero.mp hfuel)
    cases more <;> rfl
  | succ fuel ih =>
    cases bytes with
    | nil => cases more <;> rfl
    | cons b rest =>
      have hrest := length_nextItem b rest
      rw [List.length_cons] at hfuel hmore
      cases more with
      | zero => omega
      | succ more =>
        have heq : itemsFrom fuel (nextItem b rest).2 = itemsFrom more (nextItem b rest).2 :=
          ih (by omega) (by omega)
        rw [itemsFrom, itemsFrom, heq]

theorem pathItems_cons (b : UInt8) (rest : Bytes) :
    pathItems (b :: rest) = (nextItem b rest).1.toList ++ pathItems (nextItem b rest).2 := by
  unfold pathItems
  rw [List.length_cons, itemsFrom, itemsFrom_eq (length_nextItem b rest) (Nat.le_refl _)]

theorem percent_of_nextItem {b : UInt8} {rest escape : Bytes}
    (h : (nextItem b rest).1 = some (.broken escape)) : ∃ tail, escape = percent :: tail := by
  unfold nextItem at h
  split at h
  · split at h
    · split at h
      · split at h
        · cases h
        · split at h
          · next b' _ _ => cases b' <;> cases h
          · cases h
      · cases h
        exact ⟨_, rfl⟩
    · cases h
      exact ⟨_, rfl⟩
    · cases h
      exact ⟨_, rfl⟩
  · split_ifs at h <;> cases h

/-- A broken escape starts with its percent sign. -/
theorem percent_of_broken_mem {bytes escape : Bytes} (h : .broken escape ∈ pathItems bytes) :
    ∃ tail, escape = percent :: tail := by
  induction hn : bytes.length using Nat.strong_induction_on generalizing bytes with
  | _ n ih =>
    cases bytes with
    | nil => cases h
    | cons b rest =>
      rw [pathItems_cons, List.mem_append, Option.mem_toList] at h
      rcases h with hitem | hrest
      · exact percent_of_nextItem hitem
      · have hlength := length_nextItem b rest
        exact ih _ (by rw [← hn, List.length_cons]; omega) hrest rfl

/-- Without escapes and control characters every byte is an item. -/
theorem pathItems_of_plain {bytes : Bytes} (h : ∀ b ∈ bytes, b ≠ percent ∧ ¬ b < 0x20) :
    pathItems bytes = bytes.map fun b => if b = slash then .slash else .byte b := by
  induction bytes with
  | nil => rfl
  | cons b bytes ih =>
    obtain ⟨hb, hbytes⟩ := List.forall_mem_cons.mp h
    have hitem : nextItem b bytes = (some (if b = slash then .slash else .byte b), bytes) := by
      unfold nextItem
      rw [if_neg hb.1, if_neg hb.2]
      split_ifs <;> rfl
    rw [pathItems_cons, hitem, ih hbytes]
    rfl

/-! ### Pieces -/

theorem endSegment_foldl_step (items : List PathItem) (st : SanitizeState) :
    (items.foldl SanitizeState.step st).endSegment =
      st.segments ++ piecesFrom st.currentSegment items := by
  induction items generalizing st with
  | nil =>
    rw [List.foldl_nil, SanitizeState.endSegment, piecesFrom]
    split_ifs <;> simp
  | cons item items ih =>
    rw [List.foldl_cons, ih]
    cases item with
    | byte b => rfl
    | broken escape => rfl
    | slash =>
      simp only [SanitizeState.step, SanitizeState.endSegment, piecesFrom]
      split_ifs <;> simp

theorem mem_of_mem_piecesFrom {items : List PathItem} {current piece : Bytes} {b : UInt8}
    (hpiece : piece ∈ piecesFrom current items) (hb : b ∈ piece) :
    b ∈ current ∨ .byte b ∈ items := by
  induction items generalizing current with
  | nil =>
    rw [piecesFrom] at hpiece
    split_ifs at hpiece
    · cases hpiece
    · rw [List.mem_singleton] at hpiece
      exact .inl (hpiece ▸ hb)
  | cons item items ih =>
    cases item with
    | byte c =>
      rcases ih hpiece with hcurrent | hitems
      · rcases List.mem_append.mp hcurrent with hcurrent | hc
        · exact .inl hcurrent
        · rw [List.mem_singleton.mp hc]
          exact .inr List.mem_cons_self
      · exact .inr (List.mem_cons_of_mem _ hitems)
    | broken escape =>
      exact (ih hpiece).imp_right (List.mem_cons_of_mem _)
    | slash =>
      rw [piecesFrom, List.mem_append] at hpiece
      rcases hpiece with hcurrent | hrest
      · split_ifs at hcurrent
        · cases hcurrent
        · rw [List.mem_singleton] at hcurrent
          exact .inl (hcurrent ▸ hb)
      · rcases ih hrest with hnil | hitems
        · cases hnil
        · exact .inr (List.mem_cons_of_mem _ hitems)

theorem ne_nil_of_mem_piecesFrom {items : List PathItem} {current piece : Bytes}
    (hpiece : piece ∈ piecesFrom current items) : piece ≠ [] := by
  induction items generalizing current with
  | nil =>
    rw [piecesFrom] at hpiece
    split_ifs at hpiece with hcurrent
    · cases hpiece
    · rwa [List.mem_singleton.mp hpiece]
  | cons item items ih =>
    cases item with
    | byte c => exact ih hpiece
    | broken escape => exact ih hpiece
    | slash =>
      rw [piecesFrom, List.mem_append] at hpiece
      rcases hpiece with hcurrent | hrest
      · split_ifs at hcurrent with hne
        · cases hcurrent
        · rwa [List.mem_singleton.mp hcurrent]
      · exact ih hrest

/-! ## Section 4: The result of the two loops -/

section result
variable {bad : Bytes → Prop} {result segment : Bytes}

theorem tidy_step {st : SanitizeState} {item : PathItem} (hnil : ¬ bad [])
    (hmerge : ∀ p q, ¬ bad p → ¬ bad (percent :: q) → ¬ bad (p ++ percent :: q))
    (hresult : Tidy slash bad st.result)
    (hitem : ∀ escape, item = .broken escape →
      (∃ tail, escape = percent :: tail) ∧ Tidy slash bad escape) :
    Tidy slash bad (st.step item).result := by
  cases item with
  | byte b => exact hresult
  | broken escape =>
    obtain ⟨⟨tail, rfl⟩, hescape⟩ := hitem escape rfl
    exact hresult.append_cons (by decide) hmerge hescape
  | slash =>
    have hlast : (st.result.rdropWhile (· == slash)).getLast? ≠ some slash := by
      intro hslash
      obtain ⟨front, hfront⟩ := List.getLast?_eq_some_iff.mp hslash
      have hne : st.result.rdropWhile (· == slash) ≠ [] := by simp [hfront]
      apply List.rdropWhile_last_not _ _ hne
      simp [hfront]
    exact tidy_append_cons.mpr ⟨hresult.rdropWhile.tidyBefore hlast, tidyBehind_nil hnil⟩

theorem tidy_foldl_step {items : List PathItem} {st : SanitizeState} (hnil : ¬ bad [])
    (hmerge : ∀ p q, ¬ bad p → ¬ bad (percent :: q) → ¬ bad (p ++ percent :: q))
    (hresult : Tidy slash bad st.result)
    (hitems : ∀ escape, .broken escape ∈ items →
      (∃ tail, escape = percent :: tail) ∧ Tidy slash bad escape) :
    Tidy slash bad (items.foldl SanitizeState.step st).result := by
  induction items generalizing st with
  | nil => exact hresult
  | cons item items ih =>
    apply ih
    · apply tidy_step hnil hmerge hresult
      rintro escape rfl
      exact hitems escape List.mem_cons_self
    · intro escape hmem
      exact hitems escape (List.mem_cons_of_mem _ hmem)

/-- The result without a slash at its end. -/
def withoutSlash (result : Bytes) : Bytes :=
  if result.getLast? = some slash then result.dropLast else result

/-- A segment is put behind a slash, which may be there already. -/
theorem addSegment_eq (hdots : ¬ IsDots segment) (hne : segment ≠ []) :
    addSegment result segment = withoutSlash result ++ slash :: segment := by
  unfold IsDots at hdots
  rw [not_or] at hdots
  unfold addSegment withoutSlash
  rw [if_neg hdots.2, if_neg hdots.1, if_pos hne]
  by_cases hlast : result.getLast? = some slash
  · have hresult : result.dropLast ++ [slash] = result := List.dropLast_append_getLast? slash hlast
    have hnil : result ≠ [] := by
      rintro rfl
      cases hlast
    rw [if_neg (by simp [hnil, hlast]), if_pos hlast, ← List.singleton_append, ← List.append_assoc,
      hresult]
  · rw [if_pos (.inr hlast), if_neg hlast, List.append_assoc, List.singleton_append]

theorem tidyBefore_withoutSlash_iff (hnil : ¬ bad []) :
    TidyBefore slash bad (withoutSlash result) ↔ Tidy slash bad result := by
  unfold withoutSlash
  split
  · next hlast =>
    -- the slash at the end is the one that the segment is put behind
    have hresult : result.dropLast ++ [slash] = result := List.dropLast_append_getLast? slash hlast
    have htidy : Tidy slash bad (result.dropLast ++ [slash]) ↔
        TidyBefore slash bad result.dropLast := by
      rw [tidy_append_cons]
      exact and_iff_left (tidyBehind_nil hnil)
    rw [← htidy, hresult]
  · next hlast => exact ⟨TidyBefore.tidy, fun h => h.tidyBefore hlast⟩

theorem tidy_addSegment_iff (hnil : ¬ bad []) (hdots : ¬ IsDots segment) (hne : segment ≠ []) :
    Tidy slash bad (addSegment result segment) ↔
      Tidy slash bad result ∧ TidyBehind slash bad segment := by
  rw [addSegment_eq hdots hne, tidy_append_cons, tidyBefore_withoutSlash_iff hnil]

theorem truncateAtLast_append {b : Bytes} (hb : slash ∉ b) (a : Bytes) :
    truncateAtLast (a ++ slash :: b) = a := by
  have hdrop : (a ++ slash :: b).rdropWhile (· != slash) = a ++ [slash] := by
    have hpass : ∀ x ∈ b.reverse, (x != slash) = true := by
      intro x hx
      rw [bne_iff_ne]
      rintro rfl
      exact hb (List.mem_reverse.mp hx)
    unfold List.rdropWhile
    rw [List.reverse_append, List.reverse_cons, List.append_assoc,
      List.dropWhile_append_of_pos hpass]
    simp
  unfold truncateAtLast
  rw [if_pos (by simp), hdrop, List.dropLast_concat]

theorem tidy_truncateAtLast (h : Tidy slash bad result) :
    Tidy slash bad (truncateAtLast result) := by
  by_cases hmem : slash ∈ result
  · obtain ⟨a, b, rfl, hb⟩ := exists_last_of_mem hmem
    rw [truncateAtLast_append hb]
    exact (tidy_append_cons.mp h).1.tidy
  · unfold truncateAtLast
    rwa [if_neg hmem]

theorem tidy_addSegment (hnil : ¬ bad []) (hresult : Tidy slash bad result)
    (hsegment : HarmlessPiece bad segment) : Tidy slash bad (addSegment result segment) := by
  by_cases hdots : IsDots segment
  · rcases hdots with rfl | rfl
    · exact hresult
    · exact tidy_truncateAtLast hresult
  · by_cases hne : segment = []
    · subst hne
      exact hresult
    · exact (tidy_addSegment_iff hnil hdots hne).mpr ⟨hresult, hsegment.resolve_left hdots⟩

/-! ### Pieces that are taken back -/

/-- Text that starts at a slash, with `n` slashes at most. -/
def SlashText (n : Nat) (text : Bytes) : Prop :=
  (text = [] ∨ ∃ tail, text = slash :: tail) ∧ text.count slash ≤ n

/-- A `..` takes the last slash of the text above `base` away. -/
theorem truncateAtLast_above (base : Bytes) {above : Bytes} {n : Nat} (h : SlashText (n + 1) above)
    (hne : above ≠ []) :
    ∃ above', truncateAtLast (base ++ above) = base ++ above' ∧ SlashText n above' := by
  obtain ⟨tail, rfl⟩ := h.1.resolve_left hne
  obtain ⟨a, b, heq, hb⟩ := exists_last_of_mem (List.mem_cons_self : slash ∈ slash :: tail)
  refine ⟨a, ?_, ?_, ?_⟩
  · rw [heq, ← List.append_assoc, truncateAtLast_append hb]
  · cases a with
    | nil => exact .inl rfl
    | cons c a => exact .inr ⟨a, by rw [(List.cons.inj heq).1]⟩
  · have hcount := h.2
    rw [heq, List.count_append, List.count_cons_self] at hcount
    omega

/-- A piece above `base` adds its parts to the text there. -/
theorem addSegment_above (base : Bytes) {above : Bytes} {n : Nat} (h : SlashText n above)
    (hne : above ≠ []) (hdots : ¬ IsDots segment) :
    ∃ above', addSegment (base ++ above) segment = base ++ above' ∧ above' ≠ [] ∧
      SlashText (n + partCount segment) above' := by
  by_cases hsegment : segment = []
  · subst hsegment
    exact ⟨above, rfl, hne, h.1, h.2.trans (Nat.le_add_right _ _)⟩
  obtain ⟨tail, rfl⟩ := h.1.resolve_left hne
  have hcount := h.2
  refine ⟨withoutSlash (slash :: tail) ++ slash :: segment, ?_, by simp, ?_, ?_⟩
  · have hwithout :
        withoutSlash (base ++ slash :: tail) = base ++ withoutSlash (slash :: tail) := by
      unfold withoutSlash
      rw [List.getLast?_append_of_ne_nil _ (by simp), List.dropLast_append_of_ne_nil (by simp)]
      split <;> rfl
    rw [addSegment_eq hdots hsegment, hwithout, List.append_assoc]
  · right
    unfold withoutSlash
    cases tail with
    | nil => exact ⟨segment, by simp⟩
    | cons c tail =>
      split
      · exact ⟨_, by rw [List.dropLast_cons_of_ne_nil (by simp), List.cons_append]⟩
      · exact ⟨_, List.cons_append⟩
  · have hle : (withoutSlash (slash :: tail)).count slash ≤ (slash :: tail).count slash := by
      unfold withoutSlash
      split
      · exact (List.dropLast_sublist _).count_le _
      · exact Nat.le_refl _
    rw [List.count_append, List.count_cons_self, partCount, if_neg hdots]
    omega

/-- The pieces to come take the text back. -/
def Owed (above : Bytes) (pieces : List Bytes) : Prop :=
  above = [] ∨ ∃ n front, SlashText n above ∧ front <+: pieces ∧
    n + (front.map partCount).sum ≤ front.count [dot, dot]

/-- Text that starts at a slash has one. -/
theorem SlashText.eq_nil {text : Bytes} (h : SlashText 0 text) : text = [] := by
  refine h.1.resolve_right ?_
  rintro ⟨tail, rfl⟩
  have hcount := h.2
  rw [List.count_cons_self] at hcount
  omega

theorem Owed.eq_nil {above : Bytes} (h : Owed above []) : above = [] := by
  rcases h with hnil | ⟨n, front, htext, hfront, hcount⟩
  · exact hnil
  · rw [List.prefix_nil.mp hfront] at hcount
    obtain rfl : n = 0 := by simpa using hcount
    exact htext.eq_nil

/-- On a tidy result a piece is harmless, or goes above it. -/
theorem addSegment_of_tidy {base piece : Bytes} {pieces : List Bytes} (hnil : ¬ bad [])
    (hbase : Tidy slash bad base) (hpiece : HarmlessPiece bad piece ∨ TakenBack piece pieces) :
    ∃ base' above', addSegment base piece = base' ++ above' ∧ Tidy slash bad base' ∧
      Owed above' pieces := by
  by_cases hharmless : HarmlessPiece bad piece
  · exact ⟨_, [], (List.append_nil _).symm, tidy_addSegment hnil hbase hharmless, .inl rfl⟩
  obtain ⟨front, hfront, hcount⟩ := hpiece.resolve_left hharmless
  have hdots : ¬ IsDots piece := fun hdots => hharmless (.inl hdots)
  have hne : piece ≠ [] := by
    rintro rfl
    exact hharmless (.inr (tidyBehind_nil hnil))
  refine ⟨_, slash :: piece, addSegment_eq hdots hne, ?_, .inr ⟨partCount piece, front, ?_⟩⟩
  · exact ((tidyBefore_withoutSlash_iff hnil).mpr hbase).tidy
  · refine ⟨⟨.inr ⟨piece, rfl⟩, ?_⟩, hfront, ?_⟩
    · rw [List.count_cons_self, partCount, if_neg hdots]
    · simpa using hcount

/-- Text that is owed is added to by a piece, or taken from. -/
theorem addSegment_of_owed (base : Bytes) {above piece : Bytes} {pieces : List Bytes}
    (howed : Owed above (piece :: pieces)) (hne : above ≠ []) :
    ∃ above', addSegment (base ++ above) piece = base ++ above' ∧ Owed above' pieces := by
  obtain ⟨n, front, htext, hfront, hcount⟩ := howed.resolve_left hne
  cases front with
  | nil =>
    obtain rfl : n = 0 := by simpa using hcount
    exact absurd htext.eq_nil hne
  | cons piece' front =>
    obtain ⟨rfl, hrest⟩ := List.cons_prefix_cons.mp hfront
    rw [List.map_cons, List.sum_cons] at hcount
    by_cases hparent : piece' = [dot, dot]
    · subst hparent
      rw [List.count_cons_self] at hcount
      have hzero : partCount [dot, dot] = 0 := by decide
      cases n with
      | zero => exact absurd htext.eq_nil hne
      | succ n =>
        obtain ⟨above', heq, htext'⟩ := truncateAtLast_above base htext hne
        exact ⟨above', heq, .inr ⟨n, front, htext', hrest, by omega⟩⟩
    · rw [List.count_cons_of_ne hparent] at hcount
      by_cases hdot : piece' = [dot]
      · subst hdot
        exact ⟨above, rfl, .inr ⟨n, front, htext, hrest, by omega⟩⟩
      · obtain ⟨above', heq, -, htext'⟩ :=
          addSegment_above base htext hne (not_or.mpr ⟨hdot, hparent⟩)
        exact ⟨above', heq, .inr ⟨_, front, htext', hrest, by omega⟩⟩

/-- **Harmless pieces keep the result tidy**, and so do others that are taken back: the
    text that they add is above a tidy one until enough `..` have come. -/
theorem foldl_addSegment_above {pieces : List Bytes} {base above : Bytes} (hnil : ¬ bad [])
    (hbase : Tidy slash bad base)
    (hpieces : ∀ before piece behind, pieces = before ++ piece :: behind →
      HarmlessPiece bad piece ∨ TakenBack piece behind)
    (howed : Owed above pieces) : Tidy slash bad (pieces.foldl addSegment (base ++ above)) := by
  induction pieces generalizing base above with
  | nil => rwa [howed.eq_nil, List.append_nil]
  | cons piece pieces ih =>
    have hrest : ∀ before piece' behind, pieces = before ++ piece' :: behind →
        HarmlessPiece bad piece' ∨ TakenBack piece' behind := by
      intro before piece' behind heq
      exact hpieces (piece :: before) piece' behind (by rw [heq, List.cons_append])
    rw [List.foldl_cons]
    by_cases hempty : above = []
    · subst hempty
      obtain ⟨base', above', heq, hbase', howed'⟩ :=
        addSegment_of_tidy hnil hbase (hpieces [] piece pieces rfl)
      rw [List.append_nil, heq]
      exact ih hbase' hrest howed'
    · obtain ⟨above', heq, howed'⟩ := addSegment_of_owed base howed hempty
      rw [heq]
      exact ih hbase hrest howed'

theorem foldl_addSegment_tidy {pieces : List Bytes} (hnil : ¬ bad [])
    (hresult : Tidy slash bad result)
    (hpieces : ∀ before piece behind, pieces = before ++ piece :: behind →
      HarmlessPiece bad piece ∨ TakenBack piece behind) :
    Tidy slash bad (pieces.foldl addSegment result) := by
  have h := foldl_addSegment_above hnil hresult hpieces (.inl rfl)
  rwa [List.append_nil] at h

/-- Without a `..` nothing is taken back, so each piece leaves its parts. -/
theorem harmless_of_tidy_foldl {segments : List Bytes} (hnil : ¬ bad [])
    (hparent : [dot, dot] ∉ segments) (hne : [] ∉ segments)
    (h : Tidy slash bad (segments.foldl addSegment result)) :
    Tidy slash bad result ∧ ∀ segment ∈ segments, HarmlessPiece bad segment := by
  induction segments generalizing result with
  | nil => exact ⟨h, fun segment hsegment => nomatch hsegment⟩
  | cons segment segments ih =>
    obtain ⟨hparent', hparents⟩ := not_or.mp (List.mem_cons.not.mp hparent)
    obtain ⟨hne', hnes⟩ := not_or.mp (List.mem_cons.not.mp hne)
    obtain ⟨hfirst, hrest⟩ := ih hparents hnes h
    by_cases hdots : IsDots segment
    · have hsegment : segment = [dot] := hdots.resolve_right (Ne.symm hparent')
      refine ⟨?_, List.forall_mem_cons.mpr ⟨.inl hdots, hrest⟩⟩
      rwa [hsegment] at hfirst
    · obtain ⟨hresult, hpiece⟩ := (tidy_addSegment_iff hnil hdots (Ne.symm hne')).mp hfirst
      exact ⟨hresult, List.forall_mem_cons.mpr ⟨.inr hpiece, hrest⟩⟩

end result

end Synvoid.Proxy
