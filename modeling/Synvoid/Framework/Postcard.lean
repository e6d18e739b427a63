import Mathlib.Data.Nat.Log
import Synvoid.Framework.RustStr

/-! # The postcard format

    Integers and lengths are written in groups of seven bits, the low group
    first, with the high bit set in every byte but the last. Strings, byte
    arrays and sequences follow their length. A `bool` and the tag of an
    `Option` are one byte, and an enumeration is the index of its variant and
    then the fields. The fields of a struct or a tuple follow each other.

    A parser reads a value if it takes exactly the bytes of the value off the
    front (`Reads`). Parsers are put together as applicative functors, and
    `Reads` follows their structure.
-/

namespace Synvoid.Framework

/-- `postcard::Error`, as far as reading gives it. -/
inductive PostcardError where
  | unexpectedEnd
  | badVarint
  | badBool
  | badUtf8
  | badOption
  | custom
  deriving DecidableEq

def PostcardError.text : PostcardError → Str
  | unexpectedEnd => "Hit the end of buffer, expected more data".toList
  | badVarint => "Found a varint that didn't terminate".toList
  | badBool => "Found a bool that wasn't 0 or 1".toList
  | badUtf8 => "Tried to parse invalid utf-8".toList
  | badOption => "Found an Option discriminant that wasn't 0 or 1".toList
  | custom => "Serde Deserialization Error".toList

namespace Postcard

abbrev Parser (α : Type) := StateT Bytes (Except PostcardError) α

variable {α β : Type}

/-! ### Writing -/

/-- A number in at most `room` groups of seven bits. -/
def putVarint : Nat → Nat → Bytes
  | 0, _ => []
  | room + 1, n =>
      if n < 128 then [UInt8.ofNat n] else UInt8.ofNat (128 + n % 128) :: putVarint room (n / 128)

def putU16 (n : UInt16) : Bytes := putVarint 3 n.toNat

def putU32 (n : UInt32) : Bytes := putVarint 5 n.toNat

def putU64 (n : UInt64) : Bytes := putVarint 10 n.toNat

/-- A length, a `usize` of 64 bits. -/
def putLen (n : Nat) : Bytes := putVarint 10 n

def putBytes (b : Bytes) : Bytes := putLen b.length ++ b

def putStr (s : Str) : Bytes := putBytes (utf8 s)

def putBool (b : Bool) : Bytes := [if b then 1 else 0]

def putOption (put : α → Bytes) : Option α → Bytes
  | none => [0]
  | some a => 1 :: put a

def putSeq (put : α → Bytes) (as : List α) : Bytes := putLen as.length ++ as.flatMap put

def putPair (put : α → Bytes) (put' : β → Bytes) (p : α × β) : Bytes := put p.1 ++ put' p.2

/-! ### Reading -/

def pop : Parser UInt8
  | [] => .error .unexpectedEnd
  | b :: rest => .ok (b, rest)

def takeN (n : Nat) : Parser Bytes := fun data =>
  if n ≤ data.length then .ok (data.take n, data.drop n) else .error .unexpectedEnd

/-- At most `room` groups. The last of so many may be at most `last`. -/
def takeVarint : Nat → Nat → Parser Nat
  | 0, _ => throw .badVarint
  | room + 1, last => do
      let b ← pop
      if b.toNat < 128 then
        if room = 0 ∧ b.toNat > last then throw .badVarint else pure b.toNat
      else
        let n ← takeVarint room last
        pure (b.toNat % 128 + 128 * n)

def takeU16 : Parser UInt16 := UInt16.ofNat <$> takeVarint 3 3

def takeU32 : Parser UInt32 := UInt32.ofNat <$> takeVarint 5 15

def takeU64 : Parser UInt64 := UInt64.ofNat <$> takeVarint 10 1

def takeLen : Parser Nat := takeVarint 10 1

def takeBytes : Parser Bytes := do
  let n ← takeLen
  takeN n

def takeStr : Parser Str := do
  let b ← takeBytes
  match fromUtf8 b with
  | some s => pure s
  | none => throw .badUtf8

def takeBool : Parser Bool := do
  let b ← pop
  if b = 0 then pure false else if b = 1 then pure true else throw .badBool

def takeOption (p : Parser α) : Parser (Option α) := do
  let b ← pop
  if b = 0 then pure none else if b = 1 then some <$> p else throw .badOption

def takeMany (p : Parser α) : Nat → Parser (List α)
  | 0 => pure []
  | n + 1 => List.cons <$> p <*> takeMany p n

def takeSeq (p : Parser α) : Parser (List α) := do
  let n ← takeLen
  takeMany p n

def takePair (p : Parser α) (p' : Parser β) : Parser (α × β) := Prod.mk <$> p <*> p'

/-! ### What is written is read back -/

/-- The parser takes exactly these bytes off the front and gives this value. -/
def Reads (p : Parser α) (b : Bytes) (a : α) : Prop := ∀ rest, p (b ++ rest) = .ok (a, rest)

theorem Reads.pure (a : α) : Reads (Pure.pure a) [] a := fun _ => rfl

theorem Reads.bind {p : Parser α} {k : α → Parser β} {b d : Bytes} {a : α} {c : β}
    (h : Reads p b a) (h' : Reads (k a) d c) : Reads (p >>= k) (b ++ d) c := by
  intro rest
  have hp : p (b ++ (d ++ rest)) = .ok (a, d ++ rest) := h _
  have hk : k a (d ++ rest) = .ok (c, rest) := h' rest
  rw [List.append_assoc]
  show (p (b ++ (d ++ rest)) >>= fun (a, s) => k a s) = _
  rw [hp]
  exact hk

theorem Reads.map {p : Parser α} {b : Bytes} {a : α} (f : α → β) (h : Reads p b a) :
    Reads (f <$> p) b (f a) := by
  intro rest
  have hp : p (b ++ rest) = .ok (a, rest) := h rest
  show (p (b ++ rest) >>= fun (a, s) => Pure.pure (f a, s)) = _
  rw [hp]
  rfl

theorem Reads.seq {p : Parser (α → β)} {q : Parser α} {b b' : Bytes} {f : α → β} {a : α}
    (h : Reads p b f) (h' : Reads q b' a) : Reads (p <*> q) (b ++ b') (f a) := by
  intro rest
  have hp : p (b ++ (b' ++ rest)) = .ok (f, b' ++ rest) := h _
  have hq : q (b' ++ rest) = .ok (a, rest) := h' rest
  rw [List.append_assoc]
  show (p (b ++ (b' ++ rest)) >>= fun (f, s) => q s >>= fun (a, s) => Pure.pure (f a, s)) = _
  rw [hp]
  show (q (b' ++ rest) >>= fun (a, s) => Pure.pure (f a, s)) = _
  rw [hq]
  rfl

theorem reads_pop (b : UInt8) : Reads pop [b] b := fun _ => rfl

theorem reads_takeN {n : Nat} {b : Bytes} (h : b.length = n) : Reads (takeN n) b b := by
  intro rest
  subst h
  simp [takeN]

theorem reads_varint (room last : Nat) {n : Nat} (hlast : last < 128)
    (h : n < 128 ^ room * (last + 1)) :
    Reads (takeVarint (room + 1) last) (putVarint (room + 1) n) n := by
  induction room generalizing n with
  | zero =>
    have hn : n < 128 := by omega
    have hbyte : (UInt8.ofNat n).toNat = n := by
      rw [UInt8.toNat_ofNat', Nat.mod_eq_of_lt (by omega)]
    rw [putVarint, if_pos hn, takeVarint]
    refine Reads.bind (d := []) (reads_pop _) ?_
    rw [hbyte, if_pos hn, if_neg (by omega)]
    exact .pure n
  | succ room ih =>
    rw [putVarint, takeVarint]
    split
    · next hn =>
      have hbyte : (UInt8.ofNat n).toNat = n := by
        rw [UInt8.toNat_ofNat', Nat.mod_eq_of_lt (by omega)]
      refine Reads.bind (d := []) (reads_pop _) ?_
      rw [hbyte, if_pos hn, if_neg (by omega)]
      exact .pure n
    · next hn =>
      have hbyte : (UInt8.ofNat (128 + n % 128)).toNat = 128 + n % 128 := by
        rw [UInt8.toNat_ofNat', Nat.mod_eq_of_lt (by omega)]
      have hrest : n / 128 < 128 ^ room * (last + 1) := by
        rw [Nat.div_lt_iff_lt_mul (by decide)]
        calc n < 128 ^ (room + 1) * (last + 1) := h
          _ = 128 ^ room * (last + 1) * 128 := by ring
      refine Reads.bind (b := [_]) (reads_pop _) ?_
      rw [hbyte, if_neg (by omega)]
      have hread := (ih hrest).map fun m => (128 + n % 128) % 128 + 128 * m
      rw [show (128 + n % 128) % 128 + 128 * (n / 128) = n by omega] at hread
      exact hread

theorem reads_u16 (n : UInt16) : Reads takeU16 (putU16 n) n := by
  have hread := (reads_varint 2 3 (by decide)
    (Nat.lt_of_lt_of_eq n.toNat_lt (by decide))).map UInt16.ofNat
  rwa [UInt16.ofNat_toNat] at hread

theorem reads_u32 (n : UInt32) : Reads takeU32 (putU32 n) n := by
  have hread := (reads_varint 4 15 (by decide)
    (Nat.lt_of_lt_of_eq n.toNat_lt (by decide))).map UInt32.ofNat
  rwa [UInt32.ofNat_toNat] at hread

theorem reads_u64 (n : UInt64) : Reads takeU64 (putU64 n) n := by
  have hread := (reads_varint 9 1 (by decide)
    (Nat.lt_of_lt_of_eq n.toNat_lt (by decide))).map UInt64.ofNat
  rwa [UInt64.ofNat_toNat] at hread

/-- As many bytes as memory can hold. -/
def SizeOk (b : Bytes) : Prop := b.length < 18446744073709551616

theorem SizeOk.of_append {b b' : Bytes} (h : SizeOk (b ++ b')) : SizeOk b ∧ SizeOk b' := by
  rw [SizeOk, List.length_append] at h
  exact ⟨Nat.lt_of_le_of_lt (Nat.le_add_right _ _) h, Nat.lt_of_le_of_lt (Nat.le_add_left _ _) h⟩

theorem reads_len {n : Nat} (h : n < 18446744073709551616) : Reads takeLen (putLen n) n :=
  reads_varint 9 1 (by decide) (Nat.lt_of_lt_of_eq h (by decide))

theorem reads_bytes {b : Bytes} (h : SizeOk (putBytes b)) : Reads takeBytes (putBytes b) b :=
  (reads_len h.of_append.2).bind (reads_takeN rfl)

theorem reads_str {s : Str} (h : SizeOk (putStr s)) : Reads takeStr (putStr s) s := by
  have hread : Reads takeStr (putBytes (utf8 s) ++ []) s := by
    refine (reads_bytes h).bind ?_
    rw [fromUtf8_utf8]
    exact .pure s
  rwa [List.append_nil] at hread

theorem reads_bool (b : Bool) : Reads takeBool (putBool b) b := by
  cases b
  · exact Reads.bind (d := []) (reads_pop 0) (.pure false)
  · exact Reads.bind (d := []) (reads_pop 1) (.pure true)

theorem reads_option {p : Parser α} {put : α → Bytes} {o : Option α}
    (h : ∀ a, o = some a → Reads p (put a) a) : Reads (takeOption p) (putOption put o) o := by
  cases o with
  | none => exact Reads.bind (d := []) (reads_pop 0) (.pure none)
  | some a => exact Reads.bind (b := [1]) (reads_pop 1) ((h a rfl).map some)

theorem reads_many {p : Parser α} {put : α → Bytes} {as : List α}
    (hsize : SizeOk (as.flatMap put)) (h : ∀ a ∈ as, SizeOk (put a) → Reads p (put a) a) :
    Reads (takeMany p as.length) (as.flatMap put) as := by
  induction as with
  | nil => exact .pure []
  | cons a as ih =>
    rw [List.forall_mem_cons] at h
    rw [List.flatMap_cons] at hsize ⊢
    rw [List.length_cons, takeMany]
    exact ((h.1 hsize.of_append.1).map List.cons).seq (ih hsize.of_append.2 h.2)

theorem length_le_flatMap {put : α → Bytes} {as : List α} (h : ∀ a ∈ as, put a ≠ []) :
    as.length ≤ (as.flatMap put).length := by
  induction as with
  | nil => exact Nat.le_refl _
  | cons a as ih =>
    rw [List.forall_mem_cons] at h
    have hpos := List.length_pos_iff.mpr h.1
    have := ih h.2
    rw [List.flatMap_cons, List.length_cons, List.length_append]
    omega

/-- The elements of a sequence each take some bytes. -/
theorem reads_seq {p : Parser α} {put : α → Bytes} {as : List α} (hsize : SizeOk (putSeq put as))
    (hne : ∀ a ∈ as, put a ≠ []) (h : ∀ a ∈ as, SizeOk (put a) → Reads p (put a) a) :
    Reads (takeSeq p) (putSeq put as) as :=
  (reads_len (Nat.lt_of_le_of_lt (length_le_flatMap hne) hsize.of_append.2)).bind
    (reads_many hsize.of_append.2 h)

theorem putStr_ne_nil (s : Str) : putStr s ≠ [] := by
  rw [putStr, putBytes, putLen, putVarint]
  split <;> simp

theorem reads_pair {p : Parser α} {p' : Parser β} {put : α → Bytes} {put' : β → Bytes} {x : α × β}
    (h : Reads p (put x.1) x.1) (h' : Reads p' (put' x.2) x.2) :
    Reads (takePair p p') (putPair put put' x) x :=
  (h.map Prod.mk).seq h'

/-! ### Sizes -/

/-- The number of groups of a number. -/
def varintLen (n : Nat) : Nat := Nat.log 128 n + 1

theorem length_putVarint {room n : Nat} (h : n < 128 ^ room) (hroom : 0 < room) :
    (putVarint room n).length = varintLen n := by
  induction room generalizing n with
  | zero => cases hroom
  | succ room ih =>
    rw [putVarint, varintLen]
    split
    · next hn => rw [Nat.log_of_lt hn, List.length_singleton]
    · next hn =>
      have hrest : n / 128 < 128 ^ room := by
        rw [Nat.div_lt_iff_lt_mul (by decide)]
        exact Nat.lt_of_lt_of_eq h (pow_succ 128 room)
      have hpos : 0 < room := by
        rcases Nat.eq_zero_or_pos room with rfl | hpos
        · omega
        · exact hpos
      have hlog : Nat.log 128 n = Nat.log 128 (n / 128) + 1 :=
        Nat.log_of_one_lt_of_le (by decide) (Nat.le_of_not_lt hn)
      rw [List.length_cons, ih hrest hpos, varintLen, hlog]

theorem length_putU64 (n : UInt64) : (putU64 n).length = varintLen n.toNat :=
  length_putVarint (Nat.lt_of_lt_of_le n.toNat_lt (by decide)) (by decide)

theorem length_putU32 (n : UInt32) : (putU32 n).length = varintLen n.toNat :=
  length_putVarint (Nat.lt_of_lt_of_le n.toNat_lt (by decide)) (by decide)

theorem varintLen_le {n k : Nat} (hk : 0 < k) (h : n < 128 ^ k) : varintLen n ≤ k :=
  Nat.log_lt_of_lt_pow' (Nat.ne_of_gt hk) h

theorem length_putBytes {b : Bytes} (h : b.length < 18446744073709551616) :
    (putBytes b).length = varintLen b.length + b.length := by
  rw [putBytes, List.length_append, putLen,
    length_putVarint (Nat.lt_of_lt_of_le h (by decide)) (by decide)]

theorem length_putStr {s : Str} (h : byteLen s < 18446744073709551616) :
    (putStr s).length = varintLen (byteLen s) + byteLen s :=
  length_putBytes h

theorem length_flatMap_le {put : α → Bytes} {as : List α} {k : Nat}
    (h : ∀ a ∈ as, (put a).length ≤ k) : (as.flatMap put).length ≤ as.length * k := by
  induction as with
  | nil => simp
  | cons a as ih =>
    rw [List.forall_mem_cons] at h
    have := ih h.2
    rw [List.flatMap_cons, List.length_append, List.length_cons, Nat.succ_mul]
    omega

end Postcard

end Synvoid.Framework
