import Synvoid.Proxy.RequestPath

/-! # Which request paths come out clean

    The result of the two loops is cut where it is no longer UTF-8, and the text is
    brought into its NFKC form. Neither step is looked at again: a part that is cut
    can be left as `..`, and so can one that has dots or slashes in its normal form.

    `NormalForm` is what is used of NFKC. A path whose pieces are harmless in this
    respect too, or are taken back, comes out clean (`sanitized_path`).
-/

namespace Synvoid.Proxy

open Synvoid.Framework Synvoid.Http

/-! ## Section 1: Harmless paths -/

/-- What is used of NFKC: it leaves ASCII as it is, and slashes and percent signs are
    boundaries of the normalisation. -/
structure NormalForm (nfkc : Str → Str) : Prop where
  ascii : ∀ text, (∀ c ∈ text, c.toNat < 0x80) → nfkc text = text
  boundary : ∀ (a b : Str) (c : Char), c = '/' ∨ c = '%' →
    nfkc (a ++ c :: b) = nfkc a ++ c :: nfkc b

def BadSegment (segment : Str) : Prop := segment = [] ∨ segment = ['.'] ∨ segment = ['.', '.']

/-- The normal form of the text is dots, or has slashes with dots or nothing at one of
    their sides. -/
def BadText (nfkc : Str → Str) (text : Str) : Prop :=
  text ≠ [] ∧ ∃ segment ∈ (nfkc text).splitOn '/', BadSegment segment

/-- The part is bad as far as it is UTF-8. -/
def BadPart (nfkc : Str → Str) (part : Bytes) : Prop := BadText nfkc (validText part)

/-- No broken escape takes a slash with another slash or a dot behind it, and every
    piece is harmless or taken back. -/
structure HarmlessPath (nfkc : Str → Str) (path : Str) : Prop where
  broken : ∀ escape, .broken escape ∈ pathItems (utf8 path) → Tidy slash (BadPart nfkc) escape
  pieces : ∀ before piece behind, pieces path = before ++ piece :: behind →
    HarmlessPiece (BadPart nfkc) piece ∨ TakenBack piece behind

/-! ## Section 2: From bytes to text -/

section parts
variable {nfkc : Str → Str}

theorem not_badPart_nil : ¬ BadPart nfkc [] := by
  rintro ⟨hne, -⟩
  exact hne (validText_utf8 [])

theorem not_badSegment {text segment : Str} (hne : text ≠ []) (h : ¬ BadText nfkc text)
    (hsegment : segment ∈ (nfkc text).splitOn '/') : ¬ BadSegment segment :=
  fun hbad => h ⟨hne, segment, hsegment, hbad⟩

theorem tidy_of_not_badText {text : Str} (hne : text ≠ []) (h : ¬ BadText nfkc text) :
    Tidy '/' BadSegment (nfkc text) := by
  refine ⟨fun segment => not_badSegment hne h, fun hmem => ?_⟩
  have hempty := List.mem_of_mem_tail (List.mem_of_mem_dropLast hmem)
  exact not_badSegment hne h hempty (.inl rfl)

theorem utf8_slash_cons (bytes : Bytes) : slash :: bytes = utf8 ['/'] ++ bytes := rfl

theorem utf8_percent_cons (bytes : Bytes) : percent :: bytes = utf8 ['%'] ++ bytes := rfl

theorem NormalForm.nfkc_nil (hnfkc : NormalForm nfkc) : nfkc [] = [] :=
  hnfkc.ascii [] (fun _ hc => nomatch hc)

/-- A text with a percent sign in it is not bad if its two sides are not. -/
theorem NormalForm.not_badText_append_percent (hnfkc : NormalForm nfkc) {t r : Str}
    (ht : ¬ BadText nfkc t) (hr : ¬ BadText nfkc ('%' :: r)) :
    ¬ BadText nfkc (t ++ '%' :: r) := by
  by_cases hne : t = []
  · rwa [hne, List.nil_append]
  have hpercent : nfkc ('%' :: r) = '%' :: nfkc r := by
    have hsplit := hnfkc.boundary [] r '%' (.inr rfl)
    rwa [hnfkc.nfkc_nil] at hsplit
  have hmerge : ∀ p q : Str, ¬ BadSegment p → ¬ BadSegment ('%' :: q) →
      ¬ BadSegment (p ++ '%' :: q) := by
    intro p q _ _ hbad
    have hmem : '%' ∈ p ++ '%' :: q := by simp
    rcases hbad with h | h | h <;> rw [h] at hmem <;> simp at hmem
  have hleft := tidy_of_not_badText hne ht
  have hright := tidy_of_not_badText (List.cons_ne_nil _ _) hr
  rw [hpercent] at hright
  have htidy := hleft.append_cons (by decide) hmerge hright
  rw [← hnfkc.boundary t r '%' (.inr rfl)] at htidy
  rintro ⟨-, segment, hsegment, hbad⟩
  exact htidy.1 segment hsegment hbad

theorem NormalForm.not_badPart_append_percent (hnfkc : NormalForm nfkc) (p q : Bytes)
    (hp : ¬ BadPart nfkc p) (hq : ¬ BadPart nfkc (percent :: q)) :
    ¬ BadPart nfkc (p ++ percent :: q) := by
  unfold BadPart at hp hq ⊢
  by_cases hvalid : ∃ t, p = utf8 t
  · obtain ⟨t, rfl⟩ := hvalid
    rw [validText_utf8] at hp
    rw [validText_utf8_append]
    rw [utf8_percent_cons, validText_utf8_append] at hq ⊢
    exact hnfkc.not_badText_append_percent hp hq
  · rwa [validText_append_of_invalid (by decide) fun t ht => hvalid ⟨t, ht⟩]

theorem slash_notMem_validText {bytes : Bytes} (h : slash ∉ bytes) : '/' ∉ validText bytes := by
  intro hmem
  obtain ⟨a, b, heq⟩ := List.append_of_mem hmem
  apply h
  apply (validText_spec bytes).1.mem
  rw [heq, utf8_append, utf8_cons]
  exact List.mem_append_right _ (List.mem_append_left _ (by decide))

/-- The cut leaves whole parts, and at its end the text of one. -/
theorem tidy_validText {bytes : Bytes} (h : Tidy slash (BadPart nfkc) bytes) :
    Tidy '/' (BadText nfkc) (validText bytes) := by
  refine h.transfer (fun a b ha _ => ?_) fun a ha hgood => ?_
  · by_cases hvalid : ∃ t, a = utf8 t
    · obtain ⟨t, rfl⟩ := hvalid
      left
      have hfree := slash_notMem_validText ha
      rw [validText_utf8] at hfree
      rw [validText_utf8_append, validText_utf8, utf8_slash_cons, validText_utf8_append,
        List.splitOn_eq_singleton hfree]
      refine ⟨rfl, fun hne hmem => hne ?_⟩
      rw [← List.mem_singleton.mp hmem]
      rfl
    · right
      exact validText_append_of_invalid (by decide) fun t ht => hvalid ⟨t, ht⟩
  · have hfree := slash_notMem_validText ha
    exact ⟨(tidyBefore_of_notMem hfree).mpr hgood, (tidyBehind_of_notMem hfree).mpr hgood⟩

/-! ### Normal forms -/

theorem NormalForm.noTraversal (hnfkc : NormalForm nfkc) {text : Str}
    (h : Tidy '/' (BadText nfkc) text) : NoTraversal (nfkc text) := by
  refine h.transfer (fun a b _ hgood => .inl ⟨hnfkc.boundary a b '/' (.inl rfl), ?_⟩)
    fun a _ hgood => ?_
  · exact fun hne hmem => not_badSegment hne hgood hmem (.inl rfl)
  · by_cases hne : a = []
    · rw [hne, hnfkc.nfkc_nil]
      have hnil : ¬ (([] : Str) = ['.'] ∨ ([] : Str) = ['.', '.']) := by simp
      exact ⟨tidyBefore_nil hnil, tidyBehind_nil hnil⟩
    · have hdots : ∀ segment ∈ (nfkc a).splitOn '/', ¬ (segment = ['.'] ∨ segment = ['.', '.']) :=
        fun segment hmem hdots => not_badSegment hne hgood hmem (.inr hdots)
      refine ⟨⟨hdots, fun hmem => ?_⟩, hdots, fun hmem => ?_⟩
      · exact not_badSegment hne hgood (List.mem_of_mem_tail hmem) (.inl rfl)
      · exact not_badSegment hne hgood (List.mem_of_mem_dropLast hmem) (.inl rfl)

/-- Tidy bytes become a clean text. -/
theorem NormalForm.noTraversal_validText (hnfkc : NormalForm nfkc) {bytes : Bytes}
    (h : Tidy slash (BadPart nfkc) bytes) : NoTraversal (nfkc (validText bytes)) :=
  hnfkc.noTraversal (tidy_validText h)

end parts

/-! ## Section 3: The loops -/

/-- What the second loop starts from: slashes and broken escapes. -/
def loose (path : Str) : Bytes :=
  ((pathItems (utf8 path)).foldl SanitizeState.step ⟨[], [], []⟩).result

/-- What the second loop ends with. -/
def resolved (path : Str) : Bytes := (pieces path).foldl addSegment (loose path)

theorem sanitizeRequestPath_eq (nfkc : Str → Str) {path : Str} (hne : path ≠ [])
    (hslow : fastPath path = false) :
    sanitizeRequestPath nfkc path =
      if resolved path = [] then nfkc ['/'] else nfkc (validText (resolved path)) := by
  have hpieces := endSegment_foldl_step (pathItems (utf8 path)) ⟨[], [], []⟩
  rw [List.nil_append] at hpieces
  unfold sanitizeRequestPath resolved loose pieces
  rw [if_neg hne, if_neg (by simp [hslow])]
  simp only [hpieces]

theorem NormalForm.tidy_resolved {nfkc : Str → Str} (hnfkc : NormalForm nfkc) {path : Str}
    (h : HarmlessPath nfkc path) : Tidy slash (BadPart nfkc) (resolved path) := by
  refine foldl_addSegment_tidy not_badPart_nil ?_ h.pieces
  refine tidy_foldl_step not_badPart_nil hnfkc.not_badPart_append_percent
    (tidyBefore_nil not_badPart_nil).tidy fun escape hmem => ?_
  exact ⟨percent_of_broken_mem hmem, h.broken escape hmem⟩

/-! ## Section 4: ASCII -/

def PathItem.bytes : PathItem → Bytes
  | .slash => []
  | .byte b => [b]
  | .broken escape => escape

/-- Everything in the path is ASCII after decoding. -/
def AsciiPath (path : Str) : Prop :=
  ∀ item ∈ pathItems (utf8 path), ∀ b ∈ item.bytes, b.toNat < 0x80

theorem asciiPath_of_all {path : Str}
    (h : ((pathItems (utf8 path)).all fun item => item.bytes.all fun b => b.toNat < 0x80) = true) :
    AsciiPath path := by
  intro item hitem b hb
  have hbytes := List.all_eq_true.mp (List.all_eq_true.mp h item hitem) b hb
  simpa using hbytes

theorem ascii_step {item : PathItem} {st : SanitizeState} (hst : ∀ b ∈ st.result, b.toNat < 0x80)
    (hitem : ∀ escape, item = .broken escape → ∀ b ∈ escape, b.toNat < 0x80) :
    ∀ b ∈ (st.step item).result, b.toNat < 0x80 := by
  cases item with
  | byte b => exact hst
  | broken escape =>
    intro b hb
    rcases List.mem_append.mp hb with hb | hb
    · exact hst b hb
    · exact hitem escape rfl b hb
  | slash =>
    intro b hb
    rcases List.mem_append.mp hb with hb | hb
    · exact hst b ((List.rdropWhile_prefix _ _).mem hb)
    · rw [List.mem_singleton.mp hb]
      decide

theorem ascii_loose {path : Str} (h : AsciiPath path) : ∀ b ∈ loose path, b.toNat < 0x80 := by
  have hrun : ∀ (items : List PathItem) (st : SanitizeState),
      (∀ escape, .broken escape ∈ items → ∀ b ∈ escape, b.toNat < 0x80) →
      (∀ b ∈ st.result, b.toNat < 0x80) →
      ∀ b ∈ (items.foldl SanitizeState.step st).result, b.toNat < 0x80 := by
    intro items
    induction items with
    | nil => exact fun st _ hst => hst
    | cons item items ih =>
      intro st hitems hst
      apply ih _ (fun escape hmem => hitems escape (List.mem_cons_of_mem _ hmem))
      apply ascii_step hst
      rintro escape rfl
      exact hitems escape List.mem_cons_self
  exact hrun _ _ (fun escape hmem => h _ hmem) (fun b hb => nomatch hb)

theorem mem_addSegment {result segment : Bytes} {b : UInt8} (h : b ∈ addSegment result segment) :
    b ∈ result ∨ b = slash ∨ b ∈ segment := by
  unfold addSegment truncateAtLast at h
  split_ifs at h
  · exact .inl ((List.rdropWhile_prefix _ _).mem (List.mem_of_mem_dropLast h))
  · exact .inl h
  · exact .inl h
  · simp only [List.mem_append, List.mem_singleton] at h
    tauto
  · rcases List.mem_append.mp h with h | h
    · exact .inl h
    · exact .inr (.inr h)
  · exact .inl h

theorem ascii_resolved {path : Str} (h : AsciiPath path) :
    ∀ b ∈ resolved path, b.toNat < 0x80 := by
  have hrun : ∀ (segments : List Bytes) (result : Bytes),
      (∀ segment ∈ segments, ∀ b ∈ segment, b.toNat < 0x80) → (∀ b ∈ result, b.toNat < 0x80) →
      ∀ b ∈ segments.foldl addSegment result, b.toNat < 0x80 := by
    intro segments
    induction segments with
    | nil => exact fun result _ hresult => hresult
    | cons segment segments ih =>
      intro result hsegments hresult
      obtain ⟨hsegment, hrest⟩ := List.forall_mem_cons.mp hsegments
      apply ih _ hrest
      intro b hb
      rcases mem_addSegment hb with hb | rfl | hb
      · exact hresult b hb
      · decide
      · exact hsegment b hb
  apply hrun _ _ ?_ (ascii_loose h)
  intro piece hpiece b hb
  rcases mem_of_mem_piecesFrom hpiece hb with hnil | hitem
  · cases hnil
  · exact h _ hitem b (List.mem_singleton_self b)

theorem ascii_asciiChars {bytes : Bytes} (h : ∀ b ∈ bytes, b.toNat < 0x80) :
    ∀ c ∈ asciiChars bytes, c.toNat < 0x80 := by
  intro c hc
  obtain ⟨b, hb, rfl⟩ := List.mem_map.mp hc
  rw [toNat_ofNat_byte]
  exact h b hb

theorem validText_of_ascii {bytes : Bytes} (h : ∀ b ∈ bytes, b.toNat < 0x80) :
    validText bytes = asciiChars bytes := by
  have hutf8 : utf8 (asciiChars bytes) = bytes := by
    rw [utf8_of_ascii (ascii_asciiChars h), asciiChars, List.map_map]
    apply List.map_id''
    intro b
    rw [Function.comp_apply, toNat_ofNat_byte, UInt8.ofNat_toNat]
  rw [← validText_utf8 (asciiChars bytes), hutf8]

theorem ofNat_toNat_injective : Function.Injective fun b : UInt8 => Char.ofNat b.toNat := by
  intro a b h
  have htoNat := congrArg Char.toNat h
  simp only [toNat_ofNat_byte] at htoNat
  exact UInt8.toNat_inj.mp htoNat

theorem noTraversal_asciiChars (bytes : Bytes) :
    NoTraversal (asciiChars bytes) ↔ Tidy slash IsDots bytes := by
  have hpart : ∀ part : Bytes, (asciiChars part = ['.'] ∨ asciiChars part = ['.', '.']) ↔
      IsDots part := by
    intro part
    have hmap := List.map_injective_iff.mpr ofNat_toNat_injective
    exact or_congr (hmap.eq_iff (b := [dot])) (hmap.eq_iff (b := [dot, dot]))
  have hmap := tidy_map ofNat_toNat_injective slash
    (fun part => part = ['.'] ∨ part = ['.', '.']) bytes
  rw [← funext fun part => propext (hpart part)]
  exact hmap

/-- A clean ASCII text has no bad part. -/
theorem NormalForm.tidy_of_ascii {nfkc : Str → Str} (hnfkc : NormalForm nfkc) {bytes : Bytes}
    (hascii : ∀ b ∈ bytes, b.toNat < 0x80) (h : Tidy slash IsDots bytes) :
    Tidy slash (BadPart nfkc) bytes := by
  refine ⟨fun part hpart hbad => h.1 part hpart ?_, h.2⟩
  have hbytes : ∀ b ∈ part, b.toNat < 0x80 := fun b hb => hascii b (mem_of_mem_splitOn hpart hb)
  have hmap := List.map_injective_iff.mpr ofNat_toNat_injective
  have hfree : '/' ∉ asciiChars part := by
    rw [← validText_of_ascii hbytes]
    exact slash_notMem_validText (notMem_of_mem_splitOn hpart)
  unfold BadPart at hbad
  rw [validText_of_ascii hbytes] at hbad
  obtain ⟨hne, segment, hsegment, hdots⟩ := hbad
  rw [hnfkc.ascii _ (ascii_asciiChars hbytes), List.splitOn_eq_singleton hfree,
    List.mem_singleton] at hsegment
  subst hsegment
  rcases hdots with hnil | hdot | hdots
  · exact absurd hnil hne
  · exact .inl (@hmap _ [dot] hdot)
  · exact .inr (@hmap _ [dot, dot] hdots)

/-! ## Section 5: The fast path -/

theorem fastPath_iff {path : Str} : fastPath path = true ↔
    (∀ b ∈ utf8 path, b ≠ percent ∧ b ≠ dot ∧ ¬ b < 0x20) ∧ ¬ ['/', '/'] <:+: path := by
  simp only [fastPath, Bool.and_eq_true, Bool.not_eq_true', List.any_eq_false, Bool.or_eq_true,
    decide_eq_true_eq, decide_eq_false_iff_not, not_or, and_assoc]

/-- A path that takes the fast path has just slashes and other bytes in it, and no dots. -/
theorem byte_of_fastPath {path : Str} (h : fastPath path = true) {b : UInt8}
    (hb : .byte b ∈ pathItems (utf8 path)) : b ≠ slash ∧ b ≠ dot := by
  obtain ⟨hbytes, -⟩ := fastPath_iff.mp h
  rw [pathItems_of_plain fun b hb => ⟨(hbytes b hb).1, (hbytes b hb).2.2⟩, List.mem_map] at hb
  obtain ⟨c, hc, hitem⟩ := hb
  split_ifs at hitem with hslash
  cases hitem
  exact ⟨hslash, (hbytes b hc).2.1⟩

theorem plain_of_fastPath {path : Str} (h : fastPath path = true) {piece : Bytes}
    (hpiece : piece ∈ pieces path) : slash ∉ piece ∧ dot ∉ piece := by
  have hbyte : ∀ b ∈ piece, b ≠ slash ∧ b ≠ dot := fun b hb =>
    byte_of_fastPath h ((mem_of_mem_piecesFrom hpiece hb).resolve_left List.not_mem_nil)
  exact ⟨fun hmem => (hbyte slash hmem).1 rfl, fun hmem => (hbyte dot hmem).2 rfl⟩

/-- The parts between slashes are the pieces, and empty ones. -/
theorem mem_piecesFrom_of_plain {bytes current part : Bytes}
    (hpart : part ∈ (bytes.splitOn slash).modifyHead (current ++ ·)) (hne : part ≠ []) :
    part ∈ piecesFrom current (bytes.map fun b => if b = slash then .slash else .byte b) := by
  induction bytes generalizing current with
  | nil =>
    rw [List.splitOn_nil, List.modifyHead_cons, List.append_nil, List.mem_singleton] at hpart
    subst hpart
    rw [List.map_nil, piecesFrom, if_neg hne]
    exact List.mem_singleton_self part
  | cons b bytes ih =>
    obtain ⟨first, parts, hparts⟩ := List.exists_cons_of_ne_nil (List.splitOn_ne_nil slash bytes)
    rw [List.splitOn_cons_eq_if_modifyHead] at hpart
    by_cases hb : b = slash
    · rw [if_pos (beq_iff_eq.mpr hb), List.modifyHead_cons, List.append_nil] at hpart
      rw [List.map_cons, if_pos hb, piecesFrom]
      rcases List.mem_cons.mp hpart with rfl | hpart
      · rw [if_neg hne]
        exact List.mem_append_left _ (List.mem_singleton_self part)
      · refine List.mem_append_right _ (ih ?_)
        rw [hparts, List.modifyHead_cons, List.nil_append, ← hparts]
        exact hpart
    · rw [if_neg (by simpa using hb), hparts, List.modifyHead_cons, List.modifyHead_cons] at hpart
      rw [List.map_cons, if_neg hb, piecesFrom]
      apply ih
      rw [hparts, List.modifyHead_cons, List.append_assoc]
      exact hpart

theorem pair_of_utf8 {path : Str} (h : [slash, slash] <:+: utf8 path) : ['/', '/'] <:+: path := by
  obtain ⟨a, b, heq⟩ := h
  rw [List.append_assoc] at heq
  obtain ⟨t, rfl⟩ := exists_utf8_of_append (by decide : slash.toNat < 0x80) heq.symm
  have hfront : utf8 (t ++ ['/', '/']) <+: utf8 path := by
    rw [utf8_append, ← heq]
    exact (List.prefix_append_right_inj _).mpr (List.prefix_append [slash, slash] b)
  exact (List.suffix_append t ['/', '/']).isInfix.trans (prefix_of_utf8 hfront).isInfix

/-- Nothing is decoded and nothing resolved, and a harmless path is tidy as it is. -/
theorem tidy_of_fastPath {nfkc : Str → Str} {path : Str} (hfast : fastPath path = true)
    (h : HarmlessPath nfkc path) : Tidy slash (BadPart nfkc) (utf8 path) := by
  obtain ⟨hbytes, hpair⟩ := fastPath_iff.mp hfast
  have hitems := pathItems_of_plain fun b hb => ⟨(hbytes b hb).1, (hbytes b hb).2.2⟩
  refine tidy_of_no_pair (fun part hpart hbad => ?_) fun hslashes => hpair (pair_of_utf8 hslashes)
  have hne : part ≠ [] := by
    rintro rfl
    exact not_badPart_nil hbad
  have hpiece : part ∈ pieces path := by
    unfold pieces
    rw [hitems]
    refine mem_piecesFrom_of_plain ?_ hne
    obtain ⟨first, parts, hparts⟩ :=
      List.exists_cons_of_ne_nil (List.splitOn_ne_nil slash (utf8 path))
    rw [hparts, List.modifyHead_cons, List.nil_append, ← hparts]
    exact hpart
  have hdots : ¬ IsDots part := by
    rintro (rfl | rfl) <;> exact (plain_of_fastPath hfast hpiece).2 (by simp)
  obtain ⟨before, behind, hsplit⟩ := List.append_of_mem hpiece
  rcases h.pieces before part behind hsplit with hharmless | ⟨front, hfront, hcount⟩
  · exact (tidyBehind_of_notMem (plain_of_fastPath hfast hpiece).1).mp
      (hharmless.resolve_left hdots) hbad
  · -- no piece is `..`, so nothing is taken back
    have hnone : front.count [dot, dot] = 0 := by
      rw [List.count_eq_zero]
      intro hmem
      refine (plain_of_fastPath hfast ?_).2 (List.mem_cons_self : dot ∈ [dot, dot])
      rw [hsplit]
      exact List.mem_append_right _ (List.mem_cons_of_mem _ (hfront.mem hmem))
    rw [List.map_cons, List.sum_cons, hnone, partCount, if_neg hdots] at hcount
    omega

theorem harmless_of_fastPath {nfkc : Str → Str} (hnfkc : NormalForm nfkc) {path : Str}
    (hfast : fastPath path = true) (hascii : AsciiPath path) {piece : Bytes}
    (hpiece : piece ∈ pieces path) : HarmlessPiece (BadPart nfkc) piece := by
  obtain ⟨hslash, hdot⟩ := plain_of_fastPath hfast hpiece
  have hdots : ¬ IsDots piece := by
    rintro (rfl | rfl) <;> exact hdot (by simp)
  have hbytes : ∀ b ∈ piece, b.toNat < 0x80 := by
    intro b hb
    have hitem := (mem_of_mem_piecesFrom hpiece hb).resolve_left List.not_mem_nil
    exact hascii _ hitem b (List.mem_singleton_self b)
  have htidy := hnfkc.tidy_of_ascii hbytes ((tidyBefore_of_notMem hslash).mpr hdots).tidy
  refine .inr ((tidyBehind_of_notMem hslash).mpr (htidy.1 piece ?_))
  rw [List.splitOn_eq_singleton hslash]
  exact List.mem_singleton_self piece

/-! ## Section 6: Which paths come out clean -/

section main
variable {nfkc : Str → Str}

theorem noTraversal_nil : NoTraversal [] := by
  apply TidyBefore.tidy
  apply tidyBefore_nil
  rintro (h | h) <;> cases h

theorem NormalForm.noTraversal_root (hnfkc : NormalForm nfkc) : NoTraversal (nfkc ['/']) := by
  rw [hnfkc.ascii ['/'] (by simp)]
  unfold NoTraversal Tidy
  decide

theorem sanitized_of_harmless (hnfkc : NormalForm nfkc) {path : Str} (h : HarmlessPath nfkc path) :
    NoTraversal (sanitizeRequestPath nfkc path) := by
  by_cases hne : path = []
  · subst hne
    exact noTraversal_nil
  rcases hfast : fastPath path with _ | _
  · rw [sanitizeRequestPath_eq nfkc hne hfast]
    split
    · exact hnfkc.noTraversal_root
    · exact hnfkc.noTraversal_validText (hnfkc.tidy_resolved h)
  · have hsame : sanitizeRequestPath nfkc path = nfkc path := by
      unfold sanitizeRequestPath
      rw [if_neg hne, if_pos hfast]
    have hclean := hnfkc.noTraversal_validText (tidy_of_fastPath hfast h)
    rwa [validText_utf8, ← hsame] at hclean

/-- What comes out clean was tidy, if it is ASCII. -/
theorem tidy_of_sanitized (hnfkc : NormalForm nfkc) {path : Str} (hne : path ≠ [])
    (hslow : fastPath path = false) (hascii : AsciiPath path)
    (h : NoTraversal (sanitizeRequestPath nfkc path)) :
    Tidy slash (BadPart nfkc) (resolved path) := by
  have hbytes := ascii_resolved hascii
  rw [sanitizeRequestPath_eq nfkc hne hslow] at h
  split at h
  · next hnil =>
    rw [hnil]
    exact (tidyBefore_nil not_badPart_nil).tidy
  · rw [validText_of_ascii hbytes, hnfkc.ascii _ (ascii_asciiChars hbytes),
      noTraversal_asciiChars] at h
    exact hnfkc.tidy_of_ascii hbytes h

/-- **A path whose pieces are harmless or taken back comes out clean.** An ASCII path
    that comes out clean has only harmless pieces behind the last `..`. -/
theorem sanitized_path (hnfkc : NormalForm nfkc) (path : Str) :
    (HarmlessPath nfkc path → NoTraversal (sanitizeRequestPath nfkc path)) ∧
    (AsciiPath path → NoTraversal (sanitizeRequestPath nfkc path) →
      ∀ piece ∈ (pieces path).rtakeWhile (· ≠ [dot, dot]),
        HarmlessPiece (BadPart nfkc) piece) := by
  refine ⟨sanitized_of_harmless hnfkc, fun hascii hclean => ?_⟩
  by_cases hne : path = []
  · subst hne
    exact fun piece hpiece => nomatch hpiece
  rcases hfast : fastPath path with _ | _
  · have htidy := tidy_of_sanitized hnfkc hne hfast hascii hclean
    -- after the last `..` nothing is taken back
    have hsplit : (pieces path).rdropWhile (· ≠ [dot, dot]) ++
        (pieces path).rtakeWhile (· ≠ [dot, dot]) = pieces path :=
      List.rdropWhile_append_rtakeWhile
    unfold resolved at htidy
    rw [← hsplit, List.foldl_append] at htidy
    refine (harmless_of_tidy_foldl not_badPart_nil ?_ ?_ htidy).2
    · intro hparent
      simpa using List.mem_rtakeWhile_imp hparent
    · intro hnil
      exact ne_nil_of_mem_piecesFrom ((List.rtakeWhile_suffix _ _).mem hnil) rfl
  · intro piece hpiece
    exact harmless_of_fastPath hnfkc hfast hascii ((List.rtakeWhile_suffix _ _).mem hpiece)

end main

theorem normalForm_id : NormalForm id where
  ascii := fun _ _ => rfl
  boundary := fun _ _ _ _ => rfl

private theorem not_badPart_id (text : Str) (hslash : '/' ∉ text) (hdot : text ≠ ['.'])
    (hdots : text ≠ ['.', '.']) : ¬ BadPart id (utf8 text) := by
  unfold BadPart
  rw [validText_utf8]
  rintro ⟨hne, segment, hsegment, hbad⟩
  rw [id, List.splitOn_eq_singleton hslash, List.mem_singleton] at hsegment
  subst hsegment
  rcases hbad with h | h | h
  · exact hne h
  · exact hdot h
  · exact hdots h

/-- A piece that is taken back, and one with an encoded slash; both have a letter that
    is not ASCII. -/
private def accentPath : Str := "/é/../é%2Fc".toList

private theorem accentPath_items : pathItems (utf8 accentPath) =
    [.slash, .byte 0xC3, .byte 0xA9, .slash, .byte 46, .byte 46, .slash, .byte 0xC3, .byte 0xA9,
      .byte 47, .byte 99] := by
  decide

private theorem accentPath_pieces :
    pieces accentPath = [[0xC3, 0xA9], [46, 46], [0xC3, 0xA9, 47, 99]] := by
  unfold pieces
  rw [accentPath_items]
  rfl

private theorem accentPath_harmless : HarmlessPath id accentPath := by
  refine ⟨fun escape hmem => ?_, fun before piece behind hsplit => ?_⟩
  · rw [accentPath_items] at hmem
    simp at hmem
  · rw [accentPath_pieces] at hsplit
    rcases before with _ | ⟨_, _ | ⟨_, _ | ⟨_, before⟩⟩⟩
    · simp only [List.nil_append, List.cons.injEq] at hsplit
      obtain ⟨rfl, rfl⟩ := hsplit
      exact .inr ⟨[[dot, dot]], ⟨_, rfl⟩, by decide⟩
    · simp only [List.cons_append, List.nil_append, List.cons.injEq] at hsplit
      obtain ⟨-, rfl, -⟩ := hsplit
      exact .inl (.inl (.inr rfl))
    · simp only [List.cons_append, List.nil_append, List.cons.injEq] at hsplit
      obtain ⟨-, -, rfl, -⟩ := hsplit
      refine .inl (.inr ((tidyBehind_append_cons (x := [0xC3, 0xA9]) (y := [99]) (by decide)).mpr
        ⟨⟨?_, by decide⟩, (tidyBehind_of_notMem (by decide)).mpr ?_⟩))
      · exact not_badPart_id ['é'] (by decide) (by decide) (by decide)
      · exact not_badPart_id ['c'] (by decide) (by decide) (by decide)
    · simp at hsplit

/-- What is taken back is not in the result, and an encoded slash without dots does no
    harm there. -/
theorem encoded_slash_clean :
    sanitizeRequestPath id "/é/../é%2Fc".toList = "/é/c".toList ∧
      NoTraversal (sanitizeRequestPath id "/é/../é%2Fc".toList) := by
  have hresolved : resolved accentPath = utf8 "/é/c".toList := by
    unfold resolved loose
    rw [accentPath_pieces, accentPath_items]
    decide
  refine ⟨?_, (sanitized_path normalForm_id accentPath).1 accentPath_harmless⟩
  have heq := sanitizeRequestPath_eq id (show accentPath ≠ [] by decide) (by decide)
  rw [hresolved, if_neg (by decide), validText_utf8] at heq
  exact heq

/-- Encoded slashes around `..` bring it into the result. -/
theorem encoded_slash_traversal :
    sanitizeRequestPath id "/a%2F..%2Fsecret".toList = "/a/../secret".toList ∧
      ¬ NoTraversal (sanitizeRequestPath id "/a%2F..%2Fsecret".toList) := by
  have hascii : AsciiPath "/a%2F..%2Fsecret".toList := asciiPath_of_all (by decide)
  have hresult : sanitizeRequestPath id "/a%2F..%2Fsecret".toList = "/a/../secret".toList := by
    rw [sanitizeRequestPath_eq id (by decide) (by decide), if_neg (by decide),
      validText_of_ascii (ascii_resolved hascii)]
    decide
  refine ⟨hresult, ?_⟩
  rw [hresult]
  unfold NoTraversal Tidy
  decide

end Synvoid.Proxy
