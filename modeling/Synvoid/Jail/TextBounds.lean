import Synvoid.Jail.Protocol

/-! # Texts at the jail boundary

    `JailErrorDto::new`, `YaraMatchDto::truncated` and `JailError::framing`
    with the panic of `String::truncate`, which wants a character boundary. The
    limits are in bytes, so a character of several bytes at a limit ends the
    process. `texts_truncated_safely_iff` says which texts get through.

    `JailErrorDto.new` and `JailError.framing` of the protocol's model are what
    the functions return where they return (`newChecked_eq_ok`,
    `framingChecked_eq_ok`).
-/

namespace Synvoid.Jail

open Synvoid.Framework

/-! ## Section 1: The functions -/

def jailMaxTextField : Nat := 256

/-- `if s.len() > limit { s.truncate(limit); }`. -/
def truncateLonger (limit : Nat) (s : Str) : Checked Str :=
  if byteLen s > limit then truncateTo limit s else .ok s

def truncateInPlace (s : Str) : Checked Str := truncateLonger jailMaxTextField s

/-- `JailErrorDto::new`, with its panic. -/
def JailErrorDto.newChecked (code : JailErrorCode) (message : Str) : Checked JailErrorDto := do
  let message ← truncateLonger jailMaxErrorMessage message
  return ⟨code, message⟩

/-- `JailError::framing`, with its panic; `source` is what `Display` writes. -/
def JailError.framingChecked (source : Str) : Checked JailError := do
  let message ← truncateLonger jailMaxErrorMessage source
  return ⟨.framingError, message⟩

def YaraMatchDto.truncated (m : YaraMatchDto) : Checked YaraMatchDto := do
  let ruleName ← truncateInPlace m.ruleName
  let ns ← truncateInPlace m.ns
  let category ← truncateInPlace m.category
  let severity ← truncateInPlace m.severity
  let description ← truncateInPlace m.description
  -- every tag is truncated, also those that are dropped next
  let tags ← m.tags.mapM truncateInPlace
  return ⟨ruleName, ns, tags.take 32, category, severity, description⟩

/-! ## Section 2: One text -/

/-- A text is what is left of another one, within a limit. -/
def CutTo (limit : Nat) (original result : Str) : Prop :=
  result <+: original ∧ byteLen result ≤ limit

/-- No character lies across the limit. -/
def CutsBetween (limit : Nat) (s : Str) : Prop :=
  byteLen s ≤ limit ∨ isCharBoundary s limit = true

theorem truncateLonger_eq_ok {limit : Nat} {s t : Str} :
    truncateLonger limit s = .ok t ↔ CutsBetween limit s ∧ t = truncate limit s := by
  unfold truncateLonger truncateTo sliceTo CutsBetween
  by_cases hlong : byteLen s > limit
  · have hle : ¬ byteLen s ≤ limit := Nat.not_le.mpr hlong
    rw [if_pos hlong, if_pos (Nat.le_of_lt hlong)]
    by_cases hboundary : isCharBoundary s limit = true
    · simp only [hboundary, if_true, or_true, true_and, Except.ok.injEq]
      exact eq_comm
    · simp [hboundary, hle]
  · have hle : byteLen s ≤ limit := Nat.not_lt.mp hlong
    simp only [hlong, if_false, hle, true_or, true_and, truncate_of_byteLen_le hle,
      Except.ok.injEq]
    exact eq_comm

theorem cutTo_truncate (limit : Nat) (s : Str) : CutTo limit s (truncate limit s) :=
  ⟨truncate_begins limit s, byteLen_truncate_le limit s⟩

theorem newChecked_eq_ok {code : JailErrorCode} {message : Str} {dto : JailErrorDto} :
    JailErrorDto.newChecked code message = .ok dto ↔
      CutsBetween jailMaxErrorMessage message ∧ dto = .new code message := by
  constructor
  · intro h
    obtain ⟨text, htext, hdto⟩ := bind_eq_ok h
    obtain ⟨hcuts, rfl⟩ := truncateLonger_eq_ok.mp htext
    exact ⟨hcuts, (Except.ok.inj hdto).symm⟩
  · rintro ⟨hcuts, rfl⟩
    unfold JailErrorDto.newChecked
    rw [truncateLonger_eq_ok.mpr ⟨hcuts, rfl⟩]
    rfl

theorem framingChecked_eq_ok {source : Str} {e : JailError} :
    JailError.framingChecked source = .ok e ↔
      CutsBetween jailMaxErrorMessage source ∧ e = .framing source := by
  constructor
  · intro h
    obtain ⟨text, htext, he⟩ := bind_eq_ok h
    obtain ⟨hcuts, rfl⟩ := truncateLonger_eq_ok.mp htext
    exact ⟨hcuts, (Except.ok.inj he).symm⟩
  · rintro ⟨hcuts, rfl⟩
    unfold JailError.framingChecked
    rw [truncateLonger_eq_ok.mpr ⟨hcuts, rfl⟩]
    rfl

/-! ## Section 3: Matches -/

/-- All texts of a match. -/
def YaraMatchDto.texts (m : YaraMatchDto) : List Str :=
  [m.ruleName, m.ns, m.category, m.severity, m.description] ++ m.tags

/-- Each text of the result is what is left of that of the match; tags are dropped at the end. -/
structure YaraMatchDto.CutFrom (m result : YaraMatchDto) : Prop where
  ruleName : CutTo jailMaxTextField m.ruleName result.ruleName
  ns : CutTo jailMaxTextField m.ns result.ns
  category : CutTo jailMaxTextField m.category result.category
  severity : CutTo jailMaxTextField m.severity result.severity
  description : CutTo jailMaxTextField m.description result.description
  tags : List.Forall₂ (CutTo jailMaxTextField) (m.tags.take 32) result.tags

theorem mapM_truncateInPlace_eq_ok {tags result : List Str} :
    tags.mapM truncateInPlace = .ok result ↔
      (∀ tag ∈ tags, CutsBetween jailMaxTextField tag) ∧
        result = tags.map (truncate jailMaxTextField) := by
  induction tags generalizing result with
  | nil =>
    simp only [List.mapM_nil, List.map_nil, List.not_mem_nil, false_imp_iff, implies_true, true_and]
    exact ⟨fun h => (Except.ok.inj h).symm, fun h => by rw [h]; rfl⟩
  | cons tag tags ih =>
    rw [List.mapM_cons]
    constructor
    · intro h
      obtain ⟨first, hfirst, h⟩ := bind_eq_ok h
      obtain ⟨others, hothers, h⟩ := bind_eq_ok h
      obtain ⟨hcuts, rfl⟩ := truncateLonger_eq_ok.mp hfirst
      obtain ⟨hrest, rfl⟩ := ih.mp hothers
      exact ⟨List.forall_mem_cons.mpr ⟨hcuts, hrest⟩, (Except.ok.inj h).symm⟩
    · rintro ⟨hall, rfl⟩
      obtain ⟨hcuts, hrest⟩ := List.forall_mem_cons.mp hall
      have hfirst : truncateInPlace tag = .ok (truncate jailMaxTextField tag) :=
        truncateLonger_eq_ok.mpr ⟨hcuts, rfl⟩
      rw [hfirst, ih.mpr ⟨hrest, rfl⟩]
      rfl

/-- The match without panics. -/
def YaraMatchDto.cut (m : YaraMatchDto) : YaraMatchDto where
  ruleName := truncate jailMaxTextField m.ruleName
  ns := truncate jailMaxTextField m.ns
  tags := (m.tags.map (truncate jailMaxTextField)).take 32
  category := truncate jailMaxTextField m.category
  severity := truncate jailMaxTextField m.severity
  description := truncate jailMaxTextField m.description

theorem YaraMatchDto.truncated_eq_ok {m result : YaraMatchDto} :
    m.truncated = .ok result ↔
      (∀ text ∈ m.texts, CutsBetween jailMaxTextField text) ∧ result = m.cut := by
  have hfields : ∀ s t : Str, truncateInPlace s = .ok t ↔
      CutsBetween jailMaxTextField s ∧ t = truncate jailMaxTextField s :=
    fun _ _ => truncateLonger_eq_ok
  simp only [texts, List.cons_append, List.nil_append, List.forall_mem_cons]
  constructor
  · intro h
    obtain ⟨ruleName, h₁, h⟩ := bind_eq_ok h
    obtain ⟨ns, h₂, h⟩ := bind_eq_ok h
    obtain ⟨category, h₃, h⟩ := bind_eq_ok h
    obtain ⟨severity, h₄, h⟩ := bind_eq_ok h
    obtain ⟨description, h₅, h⟩ := bind_eq_ok h
    obtain ⟨tags, h₆, h⟩ := bind_eq_ok h
    obtain ⟨hc₁, rfl⟩ := (hfields _ _).mp h₁
    obtain ⟨hc₂, rfl⟩ := (hfields _ _).mp h₂
    obtain ⟨hc₃, rfl⟩ := (hfields _ _).mp h₃
    obtain ⟨hc₄, rfl⟩ := (hfields _ _).mp h₄
    obtain ⟨hc₅, rfl⟩ := (hfields _ _).mp h₅
    obtain ⟨hc₆, rfl⟩ := mapM_truncateInPlace_eq_ok.mp h₆
    exact ⟨⟨hc₁, hc₂, hc₃, hc₄, hc₅, hc₆⟩, (Except.ok.inj h).symm⟩
  · rintro ⟨⟨hc₁, hc₂, hc₃, hc₄, hc₅, hc₆⟩, rfl⟩
    unfold truncated
    rw [(hfields _ _).mpr ⟨hc₁, rfl⟩, (hfields _ _).mpr ⟨hc₂, rfl⟩, (hfields _ _).mpr ⟨hc₃, rfl⟩,
      (hfields _ _).mpr ⟨hc₄, rfl⟩, (hfields _ _).mpr ⟨hc₅, rfl⟩,
      mapM_truncateInPlace_eq_ok.mpr ⟨hc₆, rfl⟩]
    rfl

theorem YaraMatchDto.cutFrom_cut (m : YaraMatchDto) : m.CutFrom m.cut where
  ruleName := cutTo_truncate _ _
  ns := cutTo_truncate _ _
  category := cutTo_truncate _ _
  severity := cutTo_truncate _ _
  description := cutTo_truncate _ _
  tags := by
    rw [cut, ← List.map_take, List.forall₂_map_right_iff, List.forall₂_same]
    exact fun tag _ => cutTo_truncate _ tag

/-! ## Section 4: What crosses the boundary -/

/-- The three functions return, with texts that are left of the given ones. -/
structure TruncatedSafely (code : JailErrorCode) (message source : Str) (m : YaraMatchDto) :
    Prop where
  error : ∃ dto, JailErrorDto.newChecked code message = .ok dto ∧
    CutTo jailMaxErrorMessage message dto.message
  framing : ∃ e, JailError.framingChecked source = .ok e ∧
    CutTo jailMaxErrorMessage source e.message
  yaraMatch : ∃ result, m.truncated = .ok result ∧ m.CutFrom result

/-- **Truncation of texts.** The functions return, with beginnings of the texts within the limits,
    exactly if no character of a text lies across its limit. -/
theorem texts_truncated_safely_iff (code : JailErrorCode) (message source : Str)
    (m : YaraMatchDto) :
    TruncatedSafely code message source m ↔
      CutsBetween jailMaxErrorMessage message ∧ CutsBetween jailMaxErrorMessage source ∧
        ∀ text ∈ m.texts, CutsBetween jailMaxTextField text := by
  constructor
  · rintro ⟨⟨dto, hdto, -⟩, ⟨e, he, -⟩, ⟨result, hresult, -⟩⟩
    exact ⟨(newChecked_eq_ok.mp hdto).1, (framingChecked_eq_ok.mp he).1,
      (YaraMatchDto.truncated_eq_ok.mp hresult).1⟩
  · rintro ⟨hmessage, hsource, htexts⟩
    exact {
      error := ⟨_, newChecked_eq_ok.mpr ⟨hmessage, rfl⟩, cutTo_truncate _ message⟩
      framing := ⟨_, framingChecked_eq_ok.mpr ⟨hsource, rfl⟩, cutTo_truncate _ source⟩
      yaraMatch := ⟨_, YaraMatchDto.truncated_eq_ok.mpr ⟨htexts, rfl⟩, m.cutFrom_cut⟩ }

/-- 511 letters and a character of two bytes. -/
def straddlingText : Str := List.replicate 511 'a' ++ ['é']

theorem not_cutsBetween_straddlingText : ¬ CutsBetween jailMaxErrorMessage straddlingText := by
  unfold CutsBetween
  decide +kernel

/-- A message of 513 bytes whose last character starts at byte 511 ends the process. -/
theorem straddling_message_panics :
    ¬ TruncatedSafely .timeout straddlingText [] ⟨[], [], [], [], [], []⟩ := by
  rintro ⟨⟨dto, hdto, -⟩, -, -⟩
  exact not_cutsBetween_straddlingText (newChecked_eq_ok.mp hdto).1

end Synvoid.Jail
