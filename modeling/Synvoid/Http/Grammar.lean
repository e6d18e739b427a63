import Synvoid.Framework.Slice
import Synvoid.Http.HeaderMap

/-! # The HTTP/1.1 message grammar

    Tokens, fields, chunk extensions and chunked bodies as RFC 9110 and RFC 9112
    define them. These are the specifications that the readers of the mesh are
    compared with; none of them is a function of the program.
-/

namespace Synvoid.Http

open Synvoid.Framework

def crlf : Bytes := [13, 10]

def isTchar (b : UInt8) : Bool :=
  (48 ≤ b && b ≤ 57) || (65 ≤ b && b ≤ 90) || (94 ≤ b && b ≤ 122) || b == 33 ||
    (35 ≤ b && b ≤ 39) || b == 42 || b == 43 || b == 45 || b == 46 || b == 124 || b == 126

def IsToken (b : Bytes) : Prop := b ≠ [] ∧ b.all isTchar = true

/-- `OWS` and `BWS`. -/
def isBlank (b : UInt8) : Bool := b == 32 || b == 9

def IsBlanks (b : Bytes) : Prop := b.all isBlank = true

/-- A field line without its end. The value is taken with the blanks around it. -/
structure Field where
  name : Bytes
  value : Bytes
  isToken : IsToken name
  isValue : value.all isValueByte = true

def Field.bytes (field : Field) : Bytes := field.name ++ 58 :: field.value

/-- Field lines with their ends. -/
def fieldLines (fields : List Field) : Bytes := fields.flatMap fun field => field.bytes ++ crlf

/-! ### Chunked bodies -/

/-- What stands between the quotes of a quoted string. -/
inductive QuotedText : Bytes → Prop where
  | nil : QuotedText []
  | text {b : UInt8} {rest : Bytes} : isValueByte b = true → b ≠ 34 → b ≠ 92 → QuotedText rest →
      QuotedText (b :: rest)
  | pair {b : UInt8} {rest : Bytes} : isValueByte b = true → QuotedText rest →
      QuotedText (92 :: b :: rest)

inductive ExtValue : Bytes → Prop where
  | token {b : Bytes} : IsToken b → ExtValue b
  | quoted {b : Bytes} : QuotedText b → ExtValue (34 :: b ++ [34])

/-- `chunk-ext`. -/
inductive ChunkExt : Bytes → Prop where
  | nil : ChunkExt []
  | name {bws bws' name rest : Bytes} : IsBlanks bws → IsBlanks bws' → IsToken name →
      ChunkExt rest → ChunkExt (bws ++ 59 :: (bws' ++ name ++ rest))
  | value {bws bws' name bws₁ bws₂ val rest : Bytes} : IsBlanks bws → IsBlanks bws' →
      IsToken name → IsBlanks bws₁ → IsBlanks bws₂ → ExtValue val → ChunkExt rest →
      ChunkExt (bws ++ 59 :: (bws' ++ name ++ bws₁ ++ 61 :: (bws₂ ++ val ++ rest)))

/-- The bytes as characters. -/
def asciiChars (b : Bytes) : Str := b.map fun c => Char.ofNat c.toNat

/-- A line with the size `n` of a chunk, in hexadecimal digits. -/
def SizeLine (n : Nat) (line : Bytes) : Prop :=
  ∃ digits ext, digits ≠ [] ∧ (asciiChars digits).all (fun c => (hexDigit c).isSome) = true ∧
    hexValue (asciiChars digits) = n ∧ ChunkExt ext ∧ line = digits ++ ext ++ crlf

/-- `trailer-section CRLF`. -/
def Trailer (b : Bytes) : Prop := ∃ fields, b = fieldLines fields ++ crlf

/-- `chunked-body`. -/
inductive ChunkedBody : Bytes → Prop where
  | last {line trailer : Bytes} : SizeLine 0 line → Trailer trailer → ChunkedBody (line ++ trailer)
  | chunk {line data rest : Bytes} : SizeLine data.length line → data ≠ [] → ChunkedBody rest →
      ChunkedBody (line ++ (data ++ crlf) ++ rest)

/-! ### ASCII -/

theorem ascii_of_hexDigits {digits : Bytes}
    (h : (asciiChars digits).all (fun c => (hexDigit c).isSome) = true) :
    ∀ b ∈ digits, b.toNat < 0x80 := by
  intro b hb
  have hdigit := List.all_eq_true.mp h (Char.ofNat b.toNat) (List.mem_map_of_mem hb)
  have hrange := toNat_of_hexDigit hdigit
  rw [toNat_ofNat_byte] at hrange
  omega

theorem ascii_of_digits {digits : Bytes} (h : (asciiChars digits).all Char.isDigit = true) :
    ∀ b ∈ digits, b.toNat < 0x80 := by
  refine ascii_of_hexDigits (List.all_eq_true.mpr fun c hc => ?_)
  simp [hexDigit, List.all_eq_true.mp h c hc]

theorem ascii_of_isTchar {b : UInt8} (h : isTchar b = true) :
    b.toNat < 0x80 ∧ isWhitespace (Char.ofNat b.toNat) = false ∧ Char.ofNat b.toNat ≠ ':' := by
  have hcode := toNat_ofNat_byte b
  simp only [isTchar, Bool.or_eq_true, Bool.and_eq_true, decide_eq_true_eq, beq_iff_eq,
    UInt8.le_iff_toNat_le, ← UInt8.toNat_inj, UInt8.reduceToNat] at h
  refine ⟨by omega, ?_, ?_⟩
  · unfold isWhitespace
    rw [hcode]
    simp
    omega
  · intro heq
    rw [heq] at hcode
    simp at hcode
    omega

theorem isWhitespace_of_isBlank {b : UInt8} (h : isBlank b = true) :
    b.toNat < 0x80 ∧ isWhitespace (Char.ofNat b.toNat) = true ∧ Char.ofNat b.toNat ≠ ';' := by
  unfold isBlank at h
  rcases (Bool.or_eq_true _ _).mp h with h | h <;> rw [beq_iff_eq.mp h] <;> decide

theorem IsBlanks.ascii {b : Bytes} (h : IsBlanks b) : ∀ c ∈ b, c.toNat < 0x80 :=
  fun c hc => (isWhitespace_of_isBlank (List.all_eq_true.mp h c hc)).1

theorem IsBlanks.isWhitespace {b : Bytes} (h : IsBlanks b) :
    ∀ c ∈ asciiChars b, isWhitespace c = true ∧ c ≠ ';' := by
  intro c hc
  obtain ⟨x, hx, rfl⟩ := List.mem_map.mp hc
  exact (isWhitespace_of_isBlank (List.all_eq_true.mp h x hx)).2

/-! ### Bytes that do not occur -/

theorem isValueByte_of_isTchar {b : UInt8} (h : isTchar b = true) : isValueByte b = true := by
  simp only [isTchar, Bool.or_eq_true, Bool.and_eq_true, decide_eq_true_eq, beq_iff_eq,
    UInt8.le_iff_toNat_le, ← UInt8.toNat_inj, UInt8.reduceToNat] at h
  simp only [isValueByte, Bool.or_eq_true, Bool.and_eq_true, decide_eq_true_eq, ne_eq,
    UInt8.le_iff_toNat_le, ← UInt8.toNat_inj, UInt8.reduceToNat]
  omega

theorem isValueByte_of_isBlank {b : UInt8} (h : isBlank b = true) : isValueByte b = true := by
  unfold isBlank at h
  rcases (Bool.or_eq_true _ _).mp h with h | h <;> rw [beq_iff_eq.mp h] <;> decide

/-- No byte of a value is a control byte other than the tab. -/
theorem notMem_of_isValue {b : Bytes} (h : ∀ c ∈ b, isValueByte c = true) : 13 ∉ b ∧ 10 ∉ b := by
  refine ⟨fun hmem => ?_, fun hmem => ?_⟩
  · exact absurd (h 13 hmem) (by decide)
  · exact absurd (h 10 hmem) (by decide)

theorem IsToken.isValue {b : Bytes} (h : IsToken b) : ∀ c ∈ b, isValueByte c = true :=
  fun c hc => isValueByte_of_isTchar (List.all_eq_true.mp h.2 c hc)

theorem IsBlanks.isValue {b : Bytes} (h : IsBlanks b) : ∀ c ∈ b, isValueByte c = true :=
  fun c hc => isValueByte_of_isBlank (List.all_eq_true.mp h c hc)

theorem Field.isValue_bytes (field : Field) : ∀ c ∈ field.bytes, isValueByte c = true := by
  intro c hc
  rcases List.mem_append.mp hc with hname | hrest
  · exact field.isToken.isValue c hname
  · rcases List.mem_cons.mp hrest with rfl | hvalue
    · decide
    · exact List.all_eq_true.mp field.isValue c hvalue

theorem Field.begins (field : Field) : ∃ b rest, field.bytes = b :: rest ∧ b ≠ 13 := by
  cases hname : field.name with
  | nil => exact absurd hname field.isToken.1
  | cons b rest =>
    refine ⟨b, rest ++ 58 :: field.value, by simp [Field.bytes, hname], ?_⟩
    rintro rfl
    exact absurd (field.isToken.isValue 13 (by simp [hname])) (by decide)

theorem QuotedText.isValue {b : Bytes} (h : QuotedText b) : ∀ c ∈ b, isValueByte c = true := by
  induction h with
  | nil => simp
  | text hb _ _ _ ih =>
    intro c hc
    rcases List.mem_cons.mp hc with rfl | hc
    · exact hb
    · exact ih c hc
  | pair hb _ ih =>
    intro c hc
    rcases List.mem_cons.mp hc with rfl | hc
    · decide
    · rcases List.mem_cons.mp hc with rfl | hc
      · exact hb
      · exact ih c hc

theorem ExtValue.isValue {b : Bytes} (h : ExtValue b) : ∀ c ∈ b, isValueByte c = true := by
  cases h with
  | token h => exact h.isValue
  | quoted h =>
    intro c hc
    simp only [List.cons_append, List.mem_cons, List.mem_append, List.not_mem_nil, or_false] at hc
    rcases hc with rfl | hc | rfl
    · decide
    · exact h.isValue c hc
    · decide

theorem ChunkExt.isValue {b : Bytes} (h : ChunkExt b) : ∀ c ∈ b, isValueByte c = true := by
  induction h with
  | nil => simp
  | name hbws hbws' hname _ ih =>
    intro c hc
    simp only [List.mem_append, List.mem_cons] at hc
    rcases hc with hc | rfl | (hc | hc) | hc
    · exact hbws.isValue c hc
    · decide
    · exact hbws'.isValue c hc
    · exact hname.isValue c hc
    · exact ih c hc
  | value hbws hbws' hname hbws₁ hbws₂ hval _ ih =>
    intro c hc
    simp only [List.mem_append, List.mem_cons] at hc
    rcases hc with hc | rfl | ((hc | hc) | hc) | rfl | (hc | hc) | hc
    · exact hbws.isValue c hc
    · decide
    · exact hbws'.isValue c hc
    · exact hname.isValue c hc
    · exact hbws₁.isValue c hc
    · decide
    · exact hbws₂.isValue c hc
    · exact hval.isValue c hc
    · exact ih c hc

/-- An extension begins with blanks and a semicolon. -/
theorem ChunkExt.begins {b : Bytes} (h : ChunkExt b) :
    b = [] ∨ ∃ bws rest, IsBlanks bws ∧ b = bws ++ 59 :: rest := by
  cases h with
  | nil => exact .inl rfl
  | name hbws _ _ _ => exact .inr ⟨_, _, hbws, rfl⟩
  | value hbws _ _ _ _ _ _ => exact .inr ⟨_, _, hbws, rfl⟩

theorem endsFirst_crlf (line : Bytes) (h : 10 ∉ line ++ [13]) : EndsFirst crlf (line ++ crlf) :=
  endsFirst_append h

/-- A size line ends where its first line end does. -/
theorem SizeLine.endsFirst {n : Nat} {line : Bytes} (h : SizeLine n line) :
    EndsFirst crlf line := by
  obtain ⟨digits, ext, -, hdigits, -, hext, rfl⟩ := h
  have hnot : (10 : UInt8) ∉ digits ++ ext ++ [13] := by
    intro hmem
    rcases List.mem_append.mp hmem with hmem | hmem
    · rcases List.mem_append.mp hmem with hmem | hmem
      · have hdigit := List.all_eq_true.mp hdigits _ (List.mem_map_of_mem hmem)
        simp [hexDigit] at hdigit
      · exact (notMem_of_isValue hext.isValue).2 hmem
    · simp at hmem
  exact endsFirst_crlf _ hnot

end Synvoid.Http
