import Synvoid.Tls.ClientHello

/-! # What the ClientHello parsers read

    The layout of a record with a ClientHello, as its length fields say
    (`PeekedHello`, `ExtensionsIn`, `NamesIn`), without running a parser. The
    parsers never read out of range: either they reject the data, or it has this
    layout and they return what stands in it.

    A parser that has read `front` of `front ++ rest` stands at the position
    `front.length`, so each lemma is about the bytes behind a front.
-/

namespace Synvoid.Tls

open Synvoid.Framework

/-! ## Section 1: What a record holds -/

/-- A vector behind its length of one byte. -/
def vector8 (content : Bytes) : Bytes := UInt8.ofNat content.length :: content

/-- A vector behind its length of two bytes. -/
def vector16 (content : Bytes) : Bytes := u16ToBe (UInt16.ofNat content.length) ++ content

def u24ToBe (n : Nat) : Bytes :=
  [UInt8.ofNat (n / 65536), UInt8.ofNat (n / 256 % 256), UInt8.ofNat (n % 256)]

/-- A vector behind its length of three bytes. -/
def vector24 (content : Bytes) : Bytes := u24ToBe content.length ++ content

/-- A record with a ClientHello, up to the compression methods. Bytes may follow the message in the
    record, and the record in the data. -/
structure PeekedHello where
  recordVersion : UInt16
  version : UInt16
  random : Bytes
  sessionId : Bytes
  cipherSuites : Bytes
  compression : Bytes
  tail : Bytes
  afterMessage : Bytes
  afterRecord : Bytes

namespace PeekedHello

variable (hello : PeekedHello)

def body : Bytes :=
  u16ToBe hello.version ++ (hello.random ++ (vector8 hello.sessionId ++
    (vector16 hello.cipherSuites ++ (vector8 hello.compression ++ hello.tail))))

def message : Bytes := 0x01 :: (vector24 hello.body ++ hello.afterMessage)

def bytes : Bytes :=
  0x16 :: (u16ToBe hello.recordVersion ++ (vector16 hello.message ++ hello.afterRecord))

/-- Every part fits into its length field. -/
structure Fits : Prop where
  random : hello.random.length = 32
  sessionId : hello.sessionId.length < 256
  cipherSuites : hello.cipherSuites.length < 65536
  compression : hello.compression.length < 256
  body : hello.body.length < 16777216
  message : hello.message.length < 65536

end PeekedHello

/-- The extensions of a block, with their types and contents, up to a rest of less than four
    bytes. -/
inductive ExtensionsIn : Bytes → List (UInt16 × Bytes) → Prop
  | rest {data : Bytes} (h : data.length < 4) : ExtensionsIn data []
  | extension {extType : UInt16} {content rest : Bytes} {items : List (UInt16 × Bytes)}
      (hlen : content.length < 65536) (h : ExtensionsIn rest items) :
      ExtensionsIn (u16ToBe extType ++ (vector16 content ++ rest)) ((extType, content) :: items)

/-- The names of an ALPN list, up to one that is cut off. -/
inductive NamesIn : Bytes → List Bytes → Prop
  | done : NamesIn [] []
  | cutOff {len : UInt8} {rest : Bytes} (h : rest.length < len.toNat) : NamesIn (len :: rest) []
  | name {content rest : Bytes} {names : List Bytes} (hlen : content.length < 256)
      (h : NamesIn rest names) : NamesIn (vector8 content ++ rest) (content :: names)

/-- The names of the last ALPN extension that are UTF-8. -/
inductive OffersNames : List (UInt16 × Bytes) → List Str → Prop
  | intro {before after : List (UInt16 × Bytes)} {content rest : Bytes} {names : List Bytes}
      (hafter : ∀ item ∈ after, item.1 ≠ 0x0010) (hlen : content.length < 65536)
      (h : NamesIn content names) :
      OffersNames (before ++ (0x0010, vector16 content ++ rest) :: after)
        (names.filterMap fromUtf8)

/-- The data is a ClientHello of a known version, and the second byte of its first ALPN name ends
    within a character. -/
def SplitsAlpn (data : Bytes) : Prop :=
  ∃ (hello : PeekedHello) (block afterBlock : Bytes) (items : List (UInt16 × Bytes)) (name : Str)
      (names : List Str),
    hello.Fits ∧ data = hello.bytes ∧ (versionName hello.version).isSome = true ∧
      hello.tail = vector16 block ++ afterBlock ∧ block.length < 65536 ∧
      ExtensionsIn block items ∧ OffersNames items (name :: names) ∧
      ¬ isCharBoundary name (min (byteLen name) 2) = true

/-! ## Section 2: Accesses are in range -/

theorem exists_vector8 {len : UInt8} {rest : Bytes} (h : len.toNat ≤ rest.length) :
    ∃ content after, len :: rest = vector8 content ++ after ∧ content.length = len.toNat := by
  obtain ⟨content, after, rfl, hlen⟩ := exists_append_of_le h
  refine ⟨content, after, ?_, hlen⟩
  rw [vector8, hlen, UInt8.ofNat_toNat]
  rfl

theorem exists_vector16 {n : UInt16} {rest : Bytes} (h : n.toNat ≤ rest.length) :
    ∃ content after, u16ToBe n ++ rest = vector16 content ++ after ∧ content.length = n.toNat := by
  obtain ⟨content, after, rfl, hlen⟩ := exists_append_of_le h
  refine ⟨content, after, ?_, hlen⟩
  rw [vector16, hlen, UInt16.ofNat_toNat, List.append_assoc]

theorem toNat_length8 {content : Bytes} (h : content.length < 256) :
    (UInt8.ofNat content.length).toNat = content.length := by
  rw [UInt8.toNat_ofNat', Nat.mod_eq_of_lt h]

theorem toNat_length16 {content : Bytes} (h : content.length < 65536) :
    (UInt16.ofNat content.length).toNat = content.length := by
  rw [UInt16.toNat_ofNat', Nat.mod_eq_of_lt h]

@[simp] theorem length_vector8 (content : Bytes) : (vector8 content).length = content.length + 1 :=
  rfl

@[simp] theorem length_vector16 (content : Bytes) :
    (vector16 content).length = content.length + 2 := by
  rw [vector16, List.length_append, length_u16ToBe, Nat.add_comm]

/-! ### ALPN names -/

theorem exists_namesIn (content : Bytes) : ∃ names, NamesIn content names := by
  induction hn : content.length using Nat.strongRecOn generalizing content with
  | _ n ih =>
    cases content with
    | nil => exact ⟨[], .done⟩
    | cons len rest =>
      by_cases hcut : rest.length < len.toNat
      · exact ⟨[], .cutOff hcut⟩
      · obtain ⟨name, after, heq, hlen⟩ := exists_vector8 (Nat.not_lt.mp hcut)
        have hshort : after.length < n := by
          have := congrArg List.length heq
          simp at this hn
          omega
        obtain ⟨names, hnames⟩ := ih _ hshort after rfl
        rw [heq]
        exact ⟨_, .name (hlen ▸ len.toNat_lt) hnames⟩

theorem alpnLoop_eq {content : Bytes} {names : List Bytes} (h : NamesIn content names)
    (front rest : Bytes) {fuel : Nat} (hfuel : content.length ≤ fuel) (values : List Str) :
    alpnLoop (front ++ (content ++ rest)) (front.length + content.length) fuel front.length values =
      .ok (values ++ names.filterMap fromUtf8) := by
  induction h generalizing front fuel values with
  | done => cases fuel <;> simp [alpnLoop, pure, Except.pure]
  | @cutOff len after hcut =>
    obtain ⟨fuel, rfl⟩ : ∃ k, fuel = k + 1 := ⟨fuel - 1, by simp at hfuel; omega⟩
    rw [alpnLoop, if_pos (by simp), List.cons_append, index_append, ok_bind]
    simp only
    rw [if_pos (by rw [List.length_cons]; omega)]
    simp [pure, Except.pure]
  | @name name after names hlen hnames ih =>
    obtain ⟨fuel, rfl⟩ : ∃ k, fuel = k + 1 := ⟨fuel - 1, by simp at hfuel; omega⟩
    have hshort : after.length ≤ fuel := by simp at hfuel; omega
    have hbytes : front ++ (vector8 name ++ after ++ rest) =
        front ++ UInt8.ofNat name.length :: (name ++ (after ++ rest)) := by simp [vector8]
    have hbytes' : front ++ UInt8.ofNat name.length :: (name ++ (after ++ rest)) =
        (front ++ [UInt8.ofNat name.length]) ++ (name ++ (after ++ rest)) := by simp
    have hrange := range_append (front ++ [UInt8.ofNat name.length]) name (after ++ rest)
    rw [← hbytes', List.length_append, List.length_singleton] at hrange
    rw [alpnLoop, if_pos (by simp), hbytes, index_append, ok_bind, toNat_length8 hlen]
    simp only
    rw [if_neg (by simp; omega), hrange, ok_bind]
    have hnext := ih (front ++ vector8 name) hshort (values ++ (fromUtf8 name).toList)
    rw [show front ++ vector8 name ++ (after ++ rest) =
        front ++ UInt8.ofNat name.length :: (name ++ (after ++ rest)) by simp [vector8]] at hnext
    rw [show front.length + 1 + name.length = (front ++ vector8 name).length by simp; omega,
      show front.length + (vector8 name ++ after).length =
        (front ++ vector8 name).length + after.length by simp; omega, hnext]
    cases hname : fromUtf8 name <;> simp [hname]

theorem parseAlpnExtension_vector16 {content : Bytes} {names : List Bytes}
    (hlen : content.length < 65536) (h : NamesIn content names) (rest : Bytes) :
    parseAlpnExtension (vector16 content ++ rest) = .ok (.ok (names.filterMap fromUtf8)) := by
  have hread := readU16_append [] (UInt16.ofNat content.length) (content ++ rest)
  have hloop := alpnLoop_eq h (u16ToBe (UInt16.ofNat content.length)) rest
    (show content.length ≤ (vector16 content ++ rest).length by simp; omega) []
  rw [length_u16ToBe, ← List.append_assoc, ← vector16, List.nil_append] at hloop
  rw [List.nil_append, ← List.append_assoc, ← vector16, List.length_nil] at hread
  unfold parseAlpnExtension
  rw [if_neg (by simp; omega), hread, ok_bind, toNat_length16 hlen, if_neg (by simp; omega), hloop]
  rfl

/-- The extension is read without a panic, and a name in the result is one it offers. -/
theorem parseAlpnExtension_cases (body : Bytes) :
    (∃ content rest names, body = vector16 content ++ rest ∧ content.length < 65536 ∧
      NamesIn content names ∧ parseAlpnExtension body = .ok (.ok (names.filterMap fromUtf8))) ∨
    parseAlpnExtension body = .ok (.ok []) := by
  by_cases hshort : body.length < 2
  · exact .inr (if_pos hshort)
  obtain ⟨n, rest, rfl⟩ := exists_u16_append (Nat.not_lt.mp hshort)
  by_cases hcut : (u16ToBe n ++ rest).length < 2 + n.toNat
  · right
    have hread := readU16_append [] n rest
    rw [List.nil_append, List.length_nil] at hread
    unfold parseAlpnExtension
    rw [if_neg hshort, hread, ok_bind, if_pos hcut]
    rfl
  · obtain ⟨content, after, heq, hlen⟩ := exists_vector16
      (show n.toNat ≤ rest.length by simp at hcut; omega)
    have hfits : content.length < 65536 := hlen ▸ n.toNat_lt
    obtain ⟨names, hnames⟩ := exists_namesIn content
    rw [heq]
    exact .inl ⟨content, after, names, rfl, hfits, hnames,
      parseAlpnExtension_vector16 hfits hnames after⟩

/-- The names that the extension is read as. -/
def alpnNames (body : Bytes) : List Str :=
  match parseAlpnExtension body with
  | .ok (.ok names) => names
  | _ => []

theorem parseAlpnExtension_eq (body : Bytes) :
    parseAlpnExtension body = .ok (.ok (alpnNames body)) := by
  unfold alpnNames
  rcases parseAlpnExtension_cases body with ⟨content, rest, names, -, -, -, heq⟩ | heq <;> rw [heq]

/-! ### Extensions -/

/-- The ALPN names behind some extensions, with `names` before them. -/
def namesAfter (items : List (UInt16 × Bytes)) (names : List Str) : List Str :=
  items.foldl (fun names item => if item.1 = 0x0010 then alpnNames item.2 else names) names

theorem namesAfter_of_not_mem {items : List (UInt16 × Bytes)} (h : ∀ item ∈ items, item.1 ≠ 0x0010)
    (names : List Str) : namesAfter items names = names := by
  unfold namesAfter
  induction items generalizing names with
  | nil => rfl
  | cons item items ih =>
    obtain ⟨hitem, hitems⟩ := List.forall_mem_cons.mp h
    rw [List.foldl_cons, if_neg hitem, ih hitems]

theorem namesAfter_append_cons {before after : List (UInt16 × Bytes)} {body : Bytes}
    (h : ∀ item ∈ after, item.1 ≠ 0x0010) (names : List Str) :
    namesAfter (before ++ (0x0010, body) :: after) names = alpnNames body := by
  have hafter := namesAfter_of_not_mem h (alpnNames body)
  unfold namesAfter at hafter ⊢
  rw [List.foldl_append, List.foldl_cons, if_pos rfl, hafter]

/-- The names that are read are those of the last ALPN extension. -/
theorem namesAfter_cases (items : List (UInt16 × Bytes)) :
    (∃ before body after, items = before ++ (0x0010, body) :: after ∧
      ∀ item ∈ after, item.1 ≠ 0x0010) ∨ ∀ item ∈ items, item.1 ≠ 0x0010 := by
  induction items with
  | nil => exact .inr (by simp)
  | cons item items ih =>
    rcases ih with ⟨before, body, after, rfl, hafter⟩ | hnone
    · exact .inl ⟨item :: before, body, after, rfl, hafter⟩
    · by_cases hitem : item.1 = 0x0010
      · refine .inl ⟨[], item.2, items, ?_, hnone⟩
        rw [← hitem]
        rfl
      · exact .inr (List.forall_mem_cons.mpr ⟨hitem, hnone⟩)

theorem namesAfter_eq_cons_iff {items : List (UInt16 × Bytes)} {name : Str} {names : List Str} :
    namesAfter items [] = name :: names ↔ OffersNames items (name :: names) := by
  constructor
  · intro h
    rcases namesAfter_cases items with ⟨before, body, after, rfl, hafter⟩ | hnone
    · rw [namesAfter_append_cons hafter] at h
      rcases parseAlpnExtension_cases body with ⟨content, rest, raw, rfl, hlen, hraw, heq⟩ | heq
      · rw [alpnNames, heq] at h
        rw [← h]
        exact .intro hafter hlen hraw
      · rw [alpnNames, heq] at h
        cases h
    · rw [namesAfter_of_not_mem hnone] at h
      cases h
  · intro h
    generalize hnames : name :: names = all at h
    obtain ⟨hafter, hlen, hraw⟩ := h
    rw [namesAfter_append_cons hafter, alpnNames, parseAlpnExtension_vector16 hlen hraw]

/-- What the loop keeps of some extensions. -/
def stateAfter (items : List (UInt16 × Bytes)) :
    List UInt16 × List Str × Bool → List UInt16 × List Str × Bool
  | (extTypes, alpnValues, hasSni) =>
      (extTypes ++ items.map Prod.fst, namesAfter items alpnValues,
        hasSni || items.any fun item => item.1 == 0x0000)

/-- One turn of the loop, with an extension in front of it. -/
theorem ja4ExtensionLoop_extension (front : Bytes) (extType : UInt16) {content : Bytes}
    (hlen : content.length < 65536) (rest : Bytes) (fuel : Nat)
    (state : List UInt16 × List Str × Bool) :
    ja4ExtensionLoop (front ++ (u16ToBe extType ++ (vector16 content ++ rest))) (fuel + 1)
        front.length state =
      ja4ExtensionLoop ((front ++ (u16ToBe extType ++ vector16 content)) ++ rest) fuel
        (front ++ (u16ToBe extType ++ vector16 content)).length
        (stateAfter [(extType, content)] state) := by
  obtain ⟨extTypes, alpnValues, hasSni⟩ := state
  have htype := readU16_append front extType (vector16 content ++ rest)
  have hlength := readU16_append (front ++ u16ToBe extType) (UInt16.ofNat content.length)
    (content ++ rest)
  have hbody := range_append (front ++ (u16ToBe extType ++ u16ToBe (UInt16.ofNat content.length)))
    content rest
  have hwhole : front ++ u16ToBe extType ++ (u16ToBe (UInt16.ofNat content.length) ++
      (content ++ rest)) = front ++ (u16ToBe extType ++ (vector16 content ++ rest)) := by
    simp [vector16]
  have hwhole' : front ++ (u16ToBe extType ++ u16ToBe (UInt16.ofNat content.length)) ++
      (content ++ rest) = front ++ (u16ToBe extType ++ (vector16 content ++ rest)) := by
    simp [vector16]
  have hnext : front ++ (u16ToBe extType ++ vector16 content) ++ rest =
      front ++ (u16ToBe extType ++ (vector16 content ++ rest)) := by simp
  have hpos : (front ++ (u16ToBe extType ++ vector16 content)).length =
      front.length + 4 + content.length := by
    simp
    omega
  rw [hwhole, List.length_append, length_u16ToBe] at hlength
  rw [hwhole', List.length_append, List.length_append, length_u16ToBe, length_u16ToBe] at hbody
  rw [hnext, hpos, ja4ExtensionLoop, if_pos (by simp; omega), htype, ok_bind, hlength, ok_bind,
    toNat_length16 hlen]
  simp only
  rw [if_neg (by simp; omega), hbody, ok_bind, parseAlpnExtension_eq, ok_bind]
  by_cases hsni : extType = 0x0000
  · subst hsni
    simp [stateAfter, namesAfter]
  · by_cases halpn : extType = 0x0010
    · subst halpn
      simp [stateAfter, namesAfter]
    · have hnot : (extType == 0) = false := beq_false_of_ne hsni
      simp [stateAfter, namesAfter, hsni, halpn, hnot]

theorem stateAfter_cons (item : UInt16 × Bytes) (items : List (UInt16 × Bytes))
    (state : List UInt16 × List Str × Bool) :
    stateAfter (item :: items) state = stateAfter items (stateAfter [item] state) := by
  simp [stateAfter, namesAfter, Bool.or_assoc]

theorem ja4ExtensionLoop_eq {data : Bytes} {items : List (UInt16 × Bytes)}
    (h : ExtensionsIn data items) (front : Bytes) {fuel : Nat} (hfuel : data.length ≤ fuel)
    (state : List UInt16 × List Str × Bool) :
    ja4ExtensionLoop (front ++ data) fuel front.length state =
      .ok (.ok (stateAfter items state)) := by
  induction h generalizing front fuel state with
  | rest hshort =>
    have hstate : stateAfter [] state = state := by simp [stateAfter, namesAfter]
    rw [hstate]
    cases fuel with
    | zero => rfl
    | succ fuel =>
      rw [ja4ExtensionLoop, if_neg (by simp; omega)]
      rfl
  | @extension extType content rest items hlen hrest ih =>
    obtain ⟨fuel, rfl⟩ : ∃ k, fuel = k + 1 := ⟨fuel - 1, by simp at hfuel; omega⟩
    rw [ja4ExtensionLoop_extension front extType hlen, ih _ (by simp at hfuel; omega),
      stateAfter_cons _ items]

/-- The loop ends without a panic: with the extensions of the block, or where one is cut off. -/
theorem ja4ExtensionLoop_cases (data front : Bytes) {fuel : Nat} (hfuel : data.length ≤ fuel)
    (state : List UInt16 × List Str × Bool) :
    (∃ items, ExtensionsIn data items) ∨
      ja4ExtensionLoop (front ++ data) fuel front.length state = .ok (.error .incomplete) := by
  induction hn : data.length using Nat.strongRecOn generalizing data front fuel state with
  | _ n ih =>
    by_cases hshort : data.length < 4
    · exact .inl ⟨[], .rest hshort⟩
    obtain ⟨extType, after, rfl⟩ := exists_u16_append (show 2 ≤ data.length by omega)
    obtain ⟨extLen, after, rfl⟩ := exists_u16_append (show 2 ≤ after.length by
      simp at hshort; omega)
    obtain ⟨fuel, rfl⟩ : ∃ k, fuel = k + 1 := ⟨fuel - 1, by simp at hfuel; omega⟩
    by_cases hcut : after.length < extLen.toNat
    · right
      have hlength := readU16_append (front ++ u16ToBe extType) extLen after
      rw [List.append_assoc, List.length_append, length_u16ToBe] at hlength
      rw [ja4ExtensionLoop, if_pos (by simp; omega), readU16_append, ok_bind, hlength, ok_bind]
      simp only
      rw [if_pos (by simp; omega)]
      rfl
    · obtain ⟨content, rest, heq, hlen⟩ := exists_vector16 (Nat.not_lt.mp hcut)
      have hfits : content.length < 65536 := hlen ▸ extLen.toNat_lt
      have hsize := congrArg List.length heq
      simp at hsize hfuel hn
      rw [heq, ja4ExtensionLoop_extension front extType hfits]
      have hfuel' : rest.length ≤ fuel := by omega
      rcases ih rest.length (by omega) rest (front ++ (u16ToBe extType ++ vector16 content)) hfuel'
        (stateAfter [(extType, content)] state) rfl with ⟨items, hitems⟩ | herror
      · exact .inl ⟨_, .extension hfits hitems⟩
      · exact .inr herror

/-! ### The hello -/

theorem segments_u16ToBe_append (n : UInt16) (rest : Bytes) :
    segments (u16ToBe n ++ rest) = n :: segments rest := by
  rw [u16ToBe, List.cons_append, List.cons_append, List.nil_append, segments, u16FromBe_u16ToBe]

theorem cipherLoop_eq (content front rest : Bytes) {fuel : Nat} (hfuel : content.length ≤ fuel)
    (ciphers : List UInt16) :
    cipherLoop (front ++ (content ++ rest)) (front.length + content.length) fuel front.length
      ciphers = .ok (ciphers ++ segments content) := by
  induction fuel generalizing content front ciphers with
  | zero =>
    obtain rfl := List.length_eq_zero_iff.mp (Nat.le_zero.mp hfuel)
    simp [cipherLoop, segments, pure, Except.pure]
  | succ fuel ih =>
    by_cases hshort : content.length < 2
    · have hsegments : segments content = [] := by
        cases content with
        | nil => rfl
        | cons first content =>
          cases content with
          | nil => rfl
          | cons second content => simp at hshort
      rw [cipherLoop, if_neg (by omega), hsegments, List.append_nil]
      rfl
    · obtain ⟨n, after, rfl⟩ := exists_u16_append (Nat.not_lt.mp hshort)
      have hnext := ih after (front ++ u16ToBe n) (by simp at hfuel; omega) (ciphers ++ [n])
      have hbytes : front ++ u16ToBe n ++ (after ++ rest) =
          front ++ (u16ToBe n ++ (after ++ rest)) := by simp
      have hstop : front.length + (u16ToBe n ++ after).length =
          (front ++ u16ToBe n).length + after.length := by simp; omega
      rw [hbytes, List.length_append, length_u16ToBe] at hnext
      rw [hstop, List.length_append, length_u16ToBe, List.append_assoc (u16ToBe n), cipherLoop,
        if_pos (by simp; omega), readU16_append, ok_bind, hnext, segments_u16ToBe_append]
      simp

/-- Without room for the cipher suites none is read. -/
theorem cipherLoop_of_lt {hello : Bytes} {cipherEnd : Nat} (h : hello.length < cipherEnd)
    (fuel pos : Nat) (ciphers : List UInt16) :
    cipherLoop hello cipherEnd fuel pos ciphers = .ok ciphers := by
  cases fuel with
  | zero => rfl
  | succ fuel =>
    rw [cipherLoop, if_neg (by omega)]
    rfl

theorem readU24_u24ToBe {n : Nat} (h : n < 16777216) (b : UInt8) (rest : Bytes) :
    readU24 (b :: (u24ToBe n ++ rest)) 1 = .ok n := by
  have hvalue : (UInt8.ofNat (n / 65536)).toNat * 65536 +
      (UInt8.ofNat (n / 256 % 256)).toNat * 256 + (UInt8.ofNat (n % 256)).toNat = n := by
    simp only [UInt8.toNat_ofNat']
    omega
  have hread : readU24 (b :: (u24ToBe n ++ rest)) 1 =
      .ok ((UInt8.ofNat (n / 65536)).toNat * 65536 + (UInt8.ofNat (n / 256 % 256)).toNat * 256 +
        (UInt8.ofNat (n % 256)).toNat) := rfl
  rw [hread, hvalue]

theorem exists_u24_append {l : Bytes} (h : 3 ≤ l.length) :
    ∃ n rest, n < 16777216 ∧ l = u24ToBe n ++ rest := by
  match l, h with
  | b₀ :: b₁ :: b₂ :: rest, _ =>
    have h₀ := b₀.toNat_lt
    have h₁ := b₁.toNat_lt
    have h₂ := b₂.toNat_lt
    refine ⟨b₀.toNat * 65536 + b₁.toNat * 256 + b₂.toNat, rest, by omega, ?_⟩
    simp only [u24ToBe, List.cons_append, List.nil_append, List.cons.injEq, and_true]
    refine ⟨?_, ?_, ?_⟩ <;>
      · apply UInt8.toNat_inj.mp
        rw [UInt8.toNat_ofNat']
        omega

theorem clientHelloBody_message {hello : Bytes} (hlen : hello.length < 16777216) (rest : Bytes) :
    clientHelloBody (0x01 :: (vector24 hello ++ rest)) =
      .ok (if hello.length < 34 then .error .tooShort else .ok hello) := by
  have htype : index (0x01 :: (vector24 hello ++ rest)) 0 = .ok 0x01 := rfl
  have hlength := readU24_u24ToBe hlen 0x01 (hello ++ rest)
  rw [← List.append_assoc, ← vector24] at hlength
  have hrange : range (0x01 :: (vector24 hello ++ rest)) 4 (4 + hello.length) = .ok hello :=
    range_append (0x01 :: u24ToBe hello.length) hello rest
  have hsize : (0x01 :: (vector24 hello ++ rest)).length = 4 + hello.length + rest.length := by
    simp [vector24, u24ToBe]
    omega
  unfold clientHelloBody
  rw [if_neg (by omega), htype, ok_bind, if_neg (by decide), hlength, ok_bind,
    if_neg (by omega), hrange, ok_bind]
  by_cases hshort : hello.length < 34
  · rw [if_pos hshort, if_pos hshort]
    rfl
  · rw [if_neg hshort, if_neg hshort]
    rfl

/-- The message is rejected, or it is a ClientHello of at least 34 bytes. -/
theorem clientHelloBody_cases (data : Bytes) :
    (∃ e, clientHelloBody data = .ok (.error e)) ∨
      ∃ hello rest, data = 0x01 :: (vector24 hello ++ rest) ∧ hello.length < 16777216 ∧
        34 ≤ hello.length := by
  by_cases hshort : data.length < 4
  · exact .inl ⟨_, if_pos hshort⟩
  cases data with
  | nil => exact absurd (show ([] : Bytes).length < 4 by decide) hshort
  | cons msgType data =>
    obtain ⟨n, after, hn, rfl⟩ := exists_u24_append (show 3 ≤ data.length by simp at hshort; omega)
    have htype : index (msgType :: (u24ToBe n ++ after)) 0 = .ok msgType := rfl
    by_cases hhello : msgType ≠ 0x01
    · left
      unfold clientHelloBody
      rw [if_neg hshort, htype, ok_bind, if_pos hhello]
      exact ⟨_, rfl⟩
    obtain rfl := not_not.mp hhello
    by_cases hcut : (0x01 :: (u24ToBe n ++ after)).length < 4 + n
    · left
      unfold clientHelloBody
      rw [if_neg hshort, htype, ok_bind, if_neg hhello, readU24_u24ToBe hn, ok_bind, if_pos hcut]
      exact ⟨_, rfl⟩
    obtain ⟨hello, rest, rfl, hlen⟩ := exists_append_of_le
      (show n ≤ after.length by simp [u24ToBe] at hcut; omega)
    have hmessage : 0x01 :: (u24ToBe n ++ (hello ++ rest)) = 0x01 :: (vector24 hello ++ rest) := by
      rw [vector24, hlen, List.append_assoc]
    rw [hmessage]
    by_cases hhead : hello.length < 34
    · left
      rw [clientHelloBody_message (by omega), if_pos hhead]
      exact ⟨_, rfl⟩
    · exact .inr ⟨hello, rest, rfl, by omega, Nat.not_lt.mp hhead⟩

section stages
variable (version : UInt16)

/-- From the extension block on, behind what was read. -/
theorem parseInfoExtensions_vector16 (front : Bytes) (ciphers : List UInt16) {block : Bytes}
    (hlen : block.length < 65536) (afterBlock : Bytes) :
    parseInfoExtensions (front ++ (vector16 block ++ afterBlock)) version ciphers front.length =
      tryThen (parseExtensionsForJa4 block) fun (extTypes, alpnValues, hasSni) =>
        return .ok (some ⟨version, ciphers, extTypes, alpnValues, hasSni⟩) := by
  have hread := readU16_append front (UInt16.ofNat block.length) (block ++ afterBlock)
  have hrange := range_append (front ++ u16ToBe (UInt16.ofNat block.length)) block afterBlock
  have hwhole : front ++ u16ToBe (UInt16.ofNat block.length) ++ (block ++ afterBlock) =
      front ++ (vector16 block ++ afterBlock) := by simp [vector16]
  rw [hwhole, List.length_append, length_u16ToBe] at hrange
  rw [← List.append_assoc (u16ToBe _), ← vector16] at hread
  unfold parseInfoExtensions
  rw [if_neg (by simp; omega), hread, ok_bind, toNat_length16 hlen]
  simp only
  rw [if_neg (by simp; omega), hrange, ok_bind]

theorem parseInfoExtensions_cases (front tail : Bytes) (ciphers : List UInt16) :
    (∃ e, parseInfoExtensions (front ++ tail) version ciphers front.length = .ok (.error e)) ∨
    parseInfoExtensions (front ++ tail) version ciphers front.length =
      .ok (.ok (some ⟨version, ciphers, [], [], false⟩)) ∨
    ∃ block afterBlock, tail = vector16 block ++ afterBlock ∧ block.length < 65536 := by
  by_cases hshort : tail.length < 2
  · exact .inr (.inl (if_pos (by simp; omega)))
  obtain ⟨n, after, rfl⟩ := exists_u16_append (Nat.not_lt.mp hshort)
  by_cases hcut : after.length < n.toNat
  · left
    unfold parseInfoExtensions
    rw [if_neg (by simp; omega), readU16_append, ok_bind]
    simp only
    rw [if_pos (by simp; omega)]
    exact ⟨_, rfl⟩
  · obtain ⟨block, afterBlock, heq, hlen⟩ := exists_vector16 (Nat.not_lt.mp hcut)
    exact .inr (.inr ⟨block, afterBlock, heq, hlen ▸ n.toNat_lt⟩)

/-- From the cipher suites on, behind what was read. -/
theorem parseInfoCiphers_vector16 (front : Bytes) {ciphers : Bytes}
    (hlen : ciphers.length < 65536) (compressionLen : UInt8) (rest : Bytes) :
    parseInfoCiphers (front ++ (vector16 ciphers ++ compressionLen :: rest)) version front.length =
      parseInfoExtensions (front ++ (vector16 ciphers ++ compressionLen :: rest)) version
        (segments ciphers) (front.length + 2 + ciphers.length + 1 + compressionLen.toNat) := by
  have hread := readU16_append front (UInt16.ofNat ciphers.length)
    (ciphers ++ compressionLen :: rest)
  rw [← List.append_assoc (u16ToBe _), ← vector16] at hread
  have hindex := index_append (front ++ vector16 ciphers) compressionLen rest
  rw [List.append_assoc, List.length_append, length_vector16,
    Nat.add_comm ciphers.length, ← Nat.add_assoc] at hindex
  have hloop := cipherLoop_eq ciphers (front ++ u16ToBe (UInt16.ofNat ciphers.length))
    (compressionLen :: rest)
    (show ciphers.length ≤ (front ++ (vector16 ciphers ++ compressionLen :: rest)).length by
      simp; omega) []
  have hwhole : front ++ u16ToBe (UInt16.ofNat ciphers.length) ++
      (ciphers ++ compressionLen :: rest) =
        front ++ (vector16 ciphers ++ compressionLen :: rest) := by
    simp [vector16]
  rw [hwhole, List.length_append, length_u16ToBe, List.nil_append] at hloop
  unfold parseInfoCiphers
  rw [if_neg (by simp; omega), hread, ok_bind, toNat_length16 hlen]
  simp only
  rw [hloop, ok_bind, if_neg (by simp; omega), hindex, ok_bind]

/-- A hello is rejected, or has no extensions, or has an extension block. -/
theorem parseInfoCiphers_cases (front tail : Bytes) :
    (∃ e, parseInfoCiphers (front ++ tail) version front.length = .ok (.error e)) ∨
    (∃ ciphers, parseInfoCiphers (front ++ tail) version front.length =
      .ok (.ok (some ⟨version, ciphers, [], [], false⟩))) ∨
    ∃ ciphers compression block afterBlock,
      tail = vector16 ciphers ++ (vector8 compression ++ (vector16 block ++ afterBlock)) ∧
        ciphers.length < 65536 ∧ compression.length < 256 ∧ block.length < 65536 := by
  by_cases hshort : tail.length < 2
  · left
    unfold parseInfoCiphers
    rw [if_pos (by simp; omega)]
    exact ⟨_, rfl⟩
  obtain ⟨n, after, rfl⟩ := exists_u16_append (Nat.not_lt.mp hshort)
  by_cases hcut : after.length ≤ n.toNat
  · -- the compression methods are missing, and perhaps some cipher suites
    left
    have hsafe : ∃ ciphers, cipherLoop (front ++ (u16ToBe n ++ after))
        (front.length + 2 + n.toNat) (front ++ (u16ToBe n ++ after)).length (front.length + 2) [] =
        .ok ciphers := by
      rcases Nat.lt_or_eq_of_le hcut with hlt | heq
      · exact ⟨_, cipherLoop_of_lt (by simp; omega) _ _ _⟩
      · have hloop := cipherLoop_eq after (front ++ u16ToBe n) []
          (show after.length ≤ (front ++ (u16ToBe n ++ after)).length by simp; omega) []
        rw [List.append_nil, List.append_assoc, List.length_append, length_u16ToBe, heq] at hloop
        exact ⟨_, hloop⟩
    obtain ⟨ciphers, hloop⟩ := hsafe
    unfold parseInfoCiphers
    rw [if_neg (by simp; omega), readU16_append, ok_bind]
    simp only
    rw [hloop, ok_bind, if_pos (by simp; omega)]
    exact ⟨_, rfl⟩
  obtain ⟨ciphers, rest, heq, hlen⟩ := exists_vector16 (show n.toNat ≤ after.length by omega)
  have hciphers : ciphers.length < 65536 := hlen ▸ n.toNat_lt
  have hsize := congrArg List.length heq
  cases rest with
  | nil => simp at hsize; omega
  | cons compressionLen rest =>
    rw [heq, parseInfoCiphers_vector16 version front hciphers]
    by_cases hcompression : rest.length < compressionLen.toNat
    · exact .inr (.inl ⟨_, if_pos (by simp; omega)⟩)
    obtain ⟨compression, tail, heq', hlen'⟩ := exists_vector8 (Nat.not_lt.mp hcompression)
    have hwhole : front ++ (vector16 ciphers ++ compressionLen :: rest) =
        (front ++ (vector16 ciphers ++ vector8 compression)) ++ tail := by
      rw [heq']
      simp
    have hpos : front.length + 2 + ciphers.length + 1 + compressionLen.toNat =
        (front ++ (vector16 ciphers ++ vector8 compression)).length := by
      simp
      omega
    rw [hwhole, hpos, heq']
    rcases parseInfoExtensions_cases version (front ++ (vector16 ciphers ++ vector8 compression))
      tail (segments ciphers) with herror | hnone | ⟨block, afterBlock, rfl, hblock⟩
    · exact .inl herror
    · exact .inr (.inl ⟨_, hnone⟩)
    · exact .inr (.inr ⟨ciphers, compression, block, afterBlock, rfl, hciphers,
        hlen' ▸ compressionLen.toNat_lt, hblock⟩)

end stages

theorem parseHelloInfo_message {hello rest : Bytes} (hlen : hello.length < 16777216)
    (hhead : 34 ≤ hello.length) :
    parseHelloInfo (0x01 :: (vector24 hello ++ rest)) = parseInfoBody hello := by
  unfold parseHelloInfo
  rw [clientHelloBody_message hlen, if_neg (Nat.not_lt.mpr hhead)]
  rfl

/-- Up to the cipher suites, if the session id is there. -/
theorem parseHelloInfo_vector8 {random sessionId : Bytes} (version : UInt16)
    (hrandom : random.length = 32) (hsession : sessionId.length < 256) {tail rest : Bytes}
    (hlen : (u16ToBe version ++ (random ++ (vector8 sessionId ++ tail))).length < 16777216) :
    parseHelloInfo (0x01 ::
        (vector24 (u16ToBe version ++ (random ++ (vector8 sessionId ++ tail))) ++ rest)) =
      parseInfoCiphers ((u16ToBe version ++ (random ++ vector8 sessionId)) ++ tail) version
        (u16ToBe version ++ (random ++ vector8 sessionId)).length := by
  have hread := readU16_append [] version (random ++ (vector8 sessionId ++ tail))
  rw [List.nil_append, List.length_nil] at hread
  have hindex := index_append (u16ToBe version ++ random) (UInt8.ofNat sessionId.length)
    (sessionId ++ tail)
  rw [List.append_assoc, List.length_append, length_u16ToBe, hrandom] at hindex
  have hpos : (u16ToBe version ++ (random ++ vector8 sessionId)).length =
      34 + 1 + sessionId.length := by
    simp [hrandom]
    omega
  have hwhole : u16ToBe version ++ (random ++ vector8 sessionId) ++ tail =
      u16ToBe version ++ (random ++ (vector8 sessionId ++ tail)) := by simp
  rw [parseHelloInfo_message hlen (by simp [hrandom]; omega), parseInfoBody, hread, ok_bind,
    if_neg (by simp [hrandom]; omega), hpos, hwhole]
  rw [vector8, List.cons_append, show (34 : Nat) = 2 + 32 from rfl, hindex, ok_bind,
    toNat_length8 hsession]

/-- The message is rejected, or has no extensions, or has an extension block. -/
theorem parseHelloInfo_cases (data : Bytes) :
    (∃ e, parseHelloInfo data = .ok (.error e)) ∨
    (∃ version ciphers, parseHelloInfo data =
      .ok (.ok (some ⟨version, ciphers, [], [], false⟩))) ∨
    ∃ (hello : PeekedHello) (block afterBlock : Bytes),
      data = hello.message ∧ hello.tail = vector16 block ++ afterBlock ∧ block.length < 65536 ∧
        hello.random.length = 32 ∧ hello.sessionId.length < 256 ∧
        hello.cipherSuites.length < 65536 ∧ hello.compression.length < 256 ∧
        hello.body.length < 16777216 := by
  rcases clientHelloBody_cases data with ⟨e, herror⟩ | ⟨hello, afterMessage, rfl, hlen, hhead⟩
  · left
    unfold parseHelloInfo
    rw [herror]
    exact ⟨e, rfl⟩
  obtain ⟨version, after, rfl⟩ := exists_u16_append (show 2 ≤ hello.length by omega)
  obtain ⟨random, after, rfl, hrandom⟩ := exists_append_of_le
    (show 32 ≤ after.length by simp at hhead; omega)
  have hread := readU16_append [] version (random ++ after)
  rw [List.nil_append, List.length_nil] at hread
  cases after with
  | nil =>
    left
    rw [parseHelloInfo_message hlen hhead, parseInfoBody, hread, ok_bind,
      if_pos (by simp [hrandom])]
    exact ⟨_, rfl⟩
  | cons sessionIdLen after =>
    by_cases hcut : after.length < sessionIdLen.toNat
    · left
      have hindex := index_append (u16ToBe version ++ random) sessionIdLen after
      rw [List.append_assoc, List.length_append, length_u16ToBe, hrandom] at hindex
      rw [parseHelloInfo_message hlen hhead, parseInfoBody, hread, ok_bind,
        if_neg (by simp [hrandom]; omega), show (34 : Nat) = 2 + 32 from rfl, hindex, ok_bind]
      unfold parseInfoCiphers
      rw [if_pos (by simp [hrandom]; omega)]
      exact ⟨_, rfl⟩
    obtain ⟨sessionId, tail, heq, hlen'⟩ := exists_vector8 (Nat.not_lt.mp hcut)
    have hsession : sessionId.length < 256 := hlen' ▸ sessionIdLen.toNat_lt
    rw [heq] at hlen ⊢
    rw [parseHelloInfo_vector8 version hrandom hsession hlen]
    rcases parseInfoCiphers_cases version (u16ToBe version ++ (random ++ vector8 sessionId)) tail
      with herror | ⟨ciphers, hnone⟩ |
        ⟨ciphers, compression, block, afterBlock, rfl, hciphers, hcompression, hblock⟩
    · exact .inl herror
    · exact .inr (.inl ⟨version, ciphers, hnone⟩)
    · refine .inr (.inr ⟨⟨0, version, random, sessionId, ciphers, compression,
        vector16 block ++ afterBlock, afterMessage, []⟩, block, afterBlock, rfl, rfl, hblock,
        hrandom, hsession, hciphers, hcompression, hlen⟩)

/-! ### The record -/

theorem parseClientHelloInfo_record {message : Bytes} (hlen : message.length < 65536)
    (recordVersion : UInt16) (rest : Bytes) :
    parseClientHelloInfo (0x16 :: (u16ToBe recordVersion ++ (vector16 message ++ rest))) =
      parseHelloInfo message := by
  have htype : index (0x16 :: (u16ToBe recordVersion ++ (vector16 message ++ rest))) 0 =
      .ok 0x16 := rfl
  have hread : readU16 (0x16 :: (u16ToBe recordVersion ++ (vector16 message ++ rest))) 3 =
      .ok (UInt16.ofNat message.length) :=
    readU16_append (0x16 :: u16ToBe recordVersion) _ (message ++ rest)
  have hrange : range (0x16 :: (u16ToBe recordVersion ++ (vector16 message ++ rest))) 5
      (5 + message.length) = .ok message :=
    range_append (0x16 :: (u16ToBe recordVersion ++ u16ToBe (UInt16.ofNat message.length)))
      message rest
  have hsize : (0x16 :: (u16ToBe recordVersion ++ (vector16 message ++ rest))).length =
      5 + message.length + rest.length := by
    simp
    omega
  unfold parseClientHelloInfo
  rw [if_neg (by omega), htype, ok_bind, if_neg (by decide), hread, ok_bind, toNat_length16 hlen,
    if_neg (by omega), hrange, ok_bind]

/-- The data is rejected, or is a record. -/
theorem parseClientHelloInfo_cases (data : Bytes) :
    (∃ e, parseClientHelloInfo data = .ok (.error e)) ∨
    ∃ recordVersion message rest,
      data = 0x16 :: (u16ToBe recordVersion ++ (vector16 message ++ rest)) ∧
        message.length < 65536 := by
  by_cases hshort : data.length < 5
  · exact .inl ⟨_, if_pos hshort⟩
  cases data with
  | nil => exact absurd (show ([] : Bytes).length < 5 by decide) hshort
  | cons contentType data =>
    obtain ⟨recordVersion, after, rfl⟩ := exists_u16_append
      (show 2 ≤ data.length by simp at hshort; omega)
    obtain ⟨n, after, rfl⟩ := exists_u16_append (show 2 ≤ after.length by simp at hshort; omega)
    have htype : index (contentType :: (u16ToBe recordVersion ++ (u16ToBe n ++ after))) 0 =
        .ok contentType := rfl
    have hread : readU16 (contentType :: (u16ToBe recordVersion ++ (u16ToBe n ++ after))) 3 =
        .ok n := readU16_append (contentType :: u16ToBe recordVersion) n after
    by_cases hhandshake : contentType ≠ 0x16
    · left
      unfold parseClientHelloInfo
      rw [if_neg hshort, htype, ok_bind, if_pos hhandshake]
      exact ⟨_, rfl⟩
    obtain rfl := not_not.mp hhandshake
    by_cases hcut : after.length < n.toNat
    · left
      unfold parseClientHelloInfo
      rw [if_neg hshort, htype, ok_bind, if_neg hhandshake, hread, ok_bind,
        if_pos (by simp; omega)]
      exact ⟨_, rfl⟩
    · obtain ⟨message, rest, heq, hlen⟩ := exists_vector16 (Nat.not_lt.mp hcut)
      exact .inr ⟨recordVersion, message, rest, by rw [heq], hlen ▸ n.toNat_lt⟩

/-- The hello up to its tail. -/
def PeekedHello.head (hello : PeekedHello) : Bytes :=
  (u16ToBe hello.version ++ (hello.random ++ vector8 hello.sessionId)) ++
    (vector16 hello.cipherSuites ++ vector8 hello.compression)

theorem PeekedHello.parseClientHelloInfo_bytes {hello : PeekedHello} (h : hello.Fits) :
    parseClientHelloInfo hello.bytes =
      parseInfoExtensions (hello.head ++ hello.tail) hello.version (segments hello.cipherSuites)
        hello.head.length := by
  have hpos : (u16ToBe hello.version ++ (hello.random ++ vector8 hello.sessionId)).length + 2 +
      hello.cipherSuites.length + 1 + hello.compression.length = hello.head.length := by
    simp [PeekedHello.head]
    omega
  have hcompression : vector8 hello.compression ++ hello.tail =
      UInt8.ofNat hello.compression.length :: (hello.compression ++ hello.tail) := rfl
  have hwhole : hello.head ++ hello.tail =
      (u16ToBe hello.version ++ (hello.random ++ vector8 hello.sessionId)) ++
        (vector16 hello.cipherSuites ++
          (UInt8.ofNat hello.compression.length :: (hello.compression ++ hello.tail))) := by
    simp [PeekedHello.head, vector8]
  rw [PeekedHello.bytes, parseClientHelloInfo_record h.message, PeekedHello.message,
    PeekedHello.body, parseHelloInfo_vector8 hello.version h.random h.sessionId h.body,
    hcompression, parseInfoCiphers_vector16 hello.version _ h.cipherSuites,
    toNat_length8 h.compression, hpos, hwhole]

/-- The data is rejected, or has no extensions, or is a hello with an extension block. -/
theorem parseClientHelloInfo_peeked (data : Bytes) :
    (∃ e, parseClientHelloInfo data = .ok (.error e)) ∨
    (∃ version ciphers, parseClientHelloInfo data =
      .ok (.ok (some ⟨version, ciphers, [], [], false⟩))) ∨
    ∃ (hello : PeekedHello) (block afterBlock : Bytes), hello.Fits ∧ data = hello.bytes ∧
      hello.tail = vector16 block ++ afterBlock ∧ block.length < 65536 := by
  rcases parseClientHelloInfo_cases data with herror | ⟨recordVersion, message, rest, rfl, hlen⟩
  · exact .inl herror
  rw [parseClientHelloInfo_record hlen]
  rcases parseHelloInfo_cases message with herror | hnone |
    ⟨hello, block, afterBlock, rfl, htail, hblock, hrandom, hsession, hciphers, hcompression, hbody⟩
  · exact .inl herror
  · exact .inr (.inl hnone)
  · refine .inr (.inr ⟨{ hello with recordVersion, afterRecord := rest }, block,
      afterBlock, ?_, rfl,
      htail, hblock⟩)
    exact ⟨hrandom, hsession, hciphers, hcompression, hbody, hlen⟩

/-- What is known of a hello with the extensions `items`. -/
def infoOf (version : UInt16) (ciphers : List UInt16) (items : List (UInt16 × Bytes)) :
    ClientHelloInfo where
  tlsVersion := version
  cipherSuites := ciphers
  extensions := items.map Prod.fst
  alpnValues := namesAfter items []
  hasSni := items.any fun item => item.1 == 0x0000

/-- A hello whose extensions are complete. -/
theorem PeekedHello.parseClientHelloInfo_items {hello : PeekedHello} (h : hello.Fits)
    {block afterBlock : Bytes} {items : List (UInt16 × Bytes)}
    (htail : hello.tail = vector16 block ++ afterBlock) (hblock : block.length < 65536)
    (hitems : ExtensionsIn block items) :
    parseClientHelloInfo hello.bytes =
      .ok (.ok (some (infoOf hello.version (segments hello.cipherSuites) items))) := by
  have hloop := ja4ExtensionLoop_eq hitems [] (Nat.le_refl block.length) ([], [], false)
  rw [List.nil_append, List.length_nil] at hloop
  rw [PeekedHello.parseClientHelloInfo_bytes h, htail,
    parseInfoExtensions_vector16 hello.version hello.head _ hblock, parseExtensionsForJa4, hloop]
  simp [tryThen, stateAfter, infoOf, ok_bind, pure, Except.pure]

/-- A hello is rejected if one of its extensions is cut off. -/
theorem PeekedHello.parseClientHelloInfo_items_or {hello : PeekedHello} (h : hello.Fits)
    {block afterBlock : Bytes} (htail : hello.tail = vector16 block ++ afterBlock)
    (hblock : block.length < 65536) :
    (∃ items, ExtensionsIn block items) ∨
      parseClientHelloInfo hello.bytes = .ok (.error .incomplete) := by
  rcases ja4ExtensionLoop_cases block [] (Nat.le_refl block.length) ([], [], false) with
    hitems | herror
  · exact .inl hitems
  · right
    rw [List.nil_append, List.length_nil] at herror
    rw [PeekedHello.parseClientHelloInfo_bytes h, htail,
      parseInfoExtensions_vector16 hello.version hello.head _ hblock, parseExtensionsForJa4, herror]
    rfl

/-! ### The server name -/

theorem sniNameLoop_safe (data : Bytes) (fuel pos : Nat) : Safe (sniNameLoop data fuel pos) := by
  induction fuel generalizing pos with
  | zero => exact safe_pure _
  | succ fuel ih =>
    rw [sniNameLoop, safe_ite]
    refine ⟨fun hroom => ?_, fun _ => safe_pure _⟩
    rw [safe_index_bind, safe_readU16_bind, safe_ite]
    refine ⟨by omega, by omega, fun _ => safe_pure _, fun hfits => ?_⟩
    rw [safe_ite, safe_range_bind]
    refine ⟨fun _ => ⟨⟨by omega, by omega⟩, ?_⟩, fun _ => ih _⟩
    cases fromUtf8 _ <;> exact safe_pure _

theorem parseSniList_safe (data : Bytes) : Safe (parseSniList data) := by
  rw [parseSniList, safe_ite]
  refine ⟨fun _ => safe_pure _, fun hlen => ?_⟩
  rw [safe_readU16_bind, safe_ite]
  exact ⟨by omega, fun _ => safe_pure _, fun _ => sniNameLoop_safe _ _ _⟩

theorem parseSniExtension_safe (data : Bytes) : Safe (parseSniExtension data) := by
  have hloop : ∀ fuel pos, Safe (sniExtensionLoop data fuel pos) := by
    intro fuel
    induction fuel with
    | zero => exact fun _ => safe_pure _
    | succ fuel ih =>
      intro pos
      rw [sniExtensionLoop, safe_ite]
      refine ⟨fun hroom => ?_, fun _ => safe_pure _⟩
      rw [safe_readU16_bind, safe_readU16_bind, safe_ite]
      refine ⟨by omega, by omega, fun _ => safe_pure _, fun hfits => ?_⟩
      rw [safe_ite, safe_range_bind]
      exact ⟨fun _ => ⟨⟨by omega, by omega⟩, parseSniList_safe _⟩, fun _ => ih _⟩
  exact hloop _ _

theorem parseClientHelloSni_safe (data : Bytes) : Safe (parseClientHelloSni data) := by
  unfold parseClientHelloSni
  rcases clientHelloBody_cases data with ⟨e, herror⟩ | ⟨hello, rest, rfl, hlen, hhead⟩
  · rw [herror]
    exact safe_pure _
  rw [clientHelloBody_message hlen, if_neg (Nat.not_lt.mpr hhead)]
  show Safe (if 34 ≥ hello.length then _ else _)
  rw [safe_ite, safe_index_bind, safe_ite, safe_readU16_bind, safe_ite, safe_index_bind, safe_ite,
    safe_readU16_bind, safe_ite, safe_range_bind]
  refine ⟨fun _ => safe_pure _, fun _ => ⟨by omega, fun _ => safe_pure _, fun _ => ⟨by omega,
    fun _ => safe_pure _, fun _ => ⟨by omega, fun _ => safe_pure _, fun _ => ⟨by omega,
    fun _ => safe_pure _, fun _ => ⟨⟨by omega, by omega⟩, parseSniExtension_safe _⟩⟩⟩⟩⟩⟩

theorem extractSni_safe (data : Bytes) : Safe (extractSni data) := by
  rw [extractSni, safe_ite, safe_index_bind, safe_ite, safe_readU16_bind, safe_readU16_bind,
    safe_ite, safe_range_bind]
  exact ⟨fun _ => safe_pure _, fun _ => ⟨by omega, fun _ => safe_pure _, fun _ => ⟨by omega,
    by omega, fun _ => safe_pure _, fun _ => ⟨⟨by omega, by omega⟩, parseClientHelloSni_safe _⟩⟩⟩⟩

end Synvoid.Tls
