import Synvoid.Framework.RustStr

/-! # HTTP header maps

    What the rest of the model uses of `http::HeaderMap` and `HeaderValue`: the
    lines of a map in their order, under names in lower case, and their values,
    which are text only if all bytes are visible ASCII, blanks or tabs.
-/

namespace Synvoid.Http

open Synvoid.Framework

/-- What `HeaderValue::from_bytes` accepts. -/
def isValueByte (b : UInt8) : Bool := (32 ≤ b && b ≠ 127) || b = 9

structure HeaderValue where
  bytes : Bytes
  valid : bytes.all isValueByte = true

namespace HeaderValue

def isVisibleAscii (b : UInt8) : Bool := (32 ≤ b && b < 127) || b = 9

/-- The bytes as characters. -/
def chars (value : HeaderValue) : Str := value.bytes.map fun b => Char.ofNat b.toNat

/-- `to_str().ok()`. -/
def toStr (value : HeaderValue) : Option Str :=
  if value.bytes.all isVisibleAscii then some value.chars else none

/-- The value of a text, as in `HeaderValue::from_str`. -/
def ofChars (s : Str) : Option HeaderValue :=
  if h : (utf8 s).all isValueByte = true then some ⟨utf8 s, h⟩ else none

theorem chars_of_toStr {value : HeaderValue} {s : Str} (h : value.toStr = some s) :
    value.chars = s := by
  unfold toStr at h
  split at h
  · exact Option.some.inj h
  · cases h

end HeaderValue

abbrev HeaderMap := List (String × HeaderValue)

namespace HeaderMap

def getAll (headers : HeaderMap) (name : String) : List HeaderValue :=
  (headers.filter fun line => line.1 = name).map Prod.snd

def get (headers : HeaderMap) (name : String) : Option HeaderValue := (headers.getAll name).head?

def remove (headers : HeaderMap) (name : String) : HeaderMap :=
  headers.filter fun line => line.1 ≠ name

/-- The value takes the place of all others of its name. The order in which
    different names are read is not specified. -/
def insert (headers : HeaderMap) (name : String) (value : HeaderValue) : HeaderMap :=
  headers.remove name ++ [(name, value)]

/-- The map of some lines of text. -/
def ofLines (lines : List (String × String)) : HeaderMap :=
  lines.filterMap fun line => (HeaderValue.ofChars line.2.toList).map fun value => (line.1, value)

end HeaderMap

/-- `eq_ignore_ascii_case`. -/
def eqIgnoreAsciiCase (s t : Str) : Bool := s.map Char.toLower == t.map Char.toLower

end Synvoid.Http
