import Synvoid.Tls.HelloBounds

/-! # The JA4 fingerprint

    When the fingerprint is computed without a panic, and on what it depends.
    The only panic is in cutting the first ALPN name (`SplitsAlpn`). For a
    well-formed hello with at most one ALPN extension the order of the cipher
    suites and of the extensions does not matter, nor do GREASE extensions
    (`hello_inspection`).
-/

namespace Synvoid.Tls

open Synvoid.Framework

variable {sha256 : Bytes → Vector UInt8 32}

/-! ### Panics -/

theorem length_hexEncode (bytes : Bytes) : 2 * bytes.length ≤ (hexEncode bytes).length := by
  induction bytes with
  | nil => exact Nat.le_refl _
  | cons b bytes ih =>
    unfold hexEncode at ih ⊢
    rw [List.flatMap_cons, List.length_append, List.length_cons, zeroPadded, List.length_append,
      List.length_replicate]
    omega

theorem utf8Size_of_mem_hexEncode {c : Char} {bytes : Bytes} (h : c ∈ hexEncode bytes) :
    c.utf8Size = 1 := by
  obtain ⟨b, -, hc⟩ := List.mem_flatMap.mp h
  rcases List.mem_append.mp hc with hc | hc
  · rw [List.eq_of_mem_replicate hc]
    decide
  · obtain ⟨n, hn⟩ := Option.isSome_iff_exists.mp ((hexadecimal_digits b.toNat).1 c hc)
    exact utf8Size_of_hexDigit hn

theorem sha256HexFirst12_safe (sha256 : Bytes → Vector UInt8 32) (input : Str) :
    Safe (sha256HexFirst12 sha256 input) := by
  have hlength := length_hexEncode (sha256 (utf8 input)).toList
  rw [Vector.length_toList] at hlength
  exact safe_sliceTo.mpr (isCharBoundary_of_utf8Size (fun _ => utf8Size_of_mem_hexEncode)
    (by omega))

theorem fingerprint_safe_iff (info : ClientHelloInfo) :
    Safe (fingerprint sha256 info) ↔
      ((versionName info.tlsVersion).isSome = true → Safe (firstAlpn info.alpnValues)) := by
  unfold fingerprint
  cases versionName info.tlsVersion with
  | none => exact iff_of_true (safe_pure _) fun h => by cases h
  | some tlsVersion =>
    have hrest : ∀ first : Str, Safe (do
        let cipherHash ← sha256HexFirst12 sha256 (sortedList info.cipherSuites)
        let extHash ← sha256HexFirst12 sha256 (sortedList info.extensions)
        return ['_'].intercalate
          [tlsVersion, zeroPadded 2 (decimal (min info.cipherSuites.length 99)),
            if info.hasSni then "d".toList else "i".toList,
            if first = [] then "00".toList else first, cipherHash, extHash] : Checked Str) := by
      intro first
      rw [safe_bind_iff_of_safe]
      · exact sha256HexFirst12_safe sha256 _
      · intro cipherHash
        rw [safe_bind_iff_of_safe fun _ => safe_pure _]
        exact sha256HexFirst12_safe sha256 _
    exact (safe_bind_iff_of_safe hrest).trans ⟨fun h _ => h, fun h => h rfl⟩

theorem firstAlpn_safe_iff (names : List Str) :
    Safe (firstAlpn names) ↔
      ∀ name rest, names = name :: rest → isCharBoundary name (min (byteLen name) 2) = true := by
  cases names with
  | nil => exact iff_of_true (safe_pure _) fun _ _ h => by cases h
  | cons v rest =>
    rw [firstAlpn, safe_sliceTo]
    constructor
    · rintro h name rest' heq
      obtain ⟨rfl, -⟩ := List.cons.inj heq
      exact h
    · exact fun h => h v rest rfl

theorem computeJa4_of_info {data : Bytes} {info : ClientHelloInfo}
    (h : parseClientHelloInfo data = .ok (.ok (some info))) :
    computeJa4 sha256 data = do
      let text ← fingerprint sha256 info
      return some text := by
  unfold computeJa4
  rw [h]
  rfl

theorem computeJa4_of_error {data : Bytes} {e : SniError}
    (h : parseClientHelloInfo data = .ok (.error e)) : computeJa4 sha256 data = .ok none := by
  unfold computeJa4
  rw [h]
  rfl

theorem computeJa4_safe_of_info {data : Bytes} {info : ClientHelloInfo}
    (h : parseClientHelloInfo data = .ok (.ok (some info))) :
    Safe (computeJa4 sha256 data) ↔ Safe (fingerprint sha256 info) := by
  rw [computeJa4_of_info h]
  exact safe_bind_iff_of_safe fun _ => safe_pure _

theorem not_safe_of_splitsAlpn {data : Bytes} (h : SplitsAlpn data) :
    ¬ Safe (computeJa4 sha256 data) := by
  obtain ⟨hello, block, afterBlock, items, name, names, hfits, rfl, hversion, htail, hblock,
    hitems, hnames, hsplit⟩ := h
  rw [computeJa4_safe_of_info (hello.parseClientHelloInfo_items hfits htail hblock hitems),
    fingerprint_safe_iff, firstAlpn_safe_iff]
  intro hsafe
  exact hsplit (hsafe hversion name names (namesAfter_eq_cons_iff.mpr hnames))

theorem safe_or_splitsAlpn (sha256 : Bytes → Vector UInt8 32) (data : Bytes) :
    Safe (computeJa4 sha256 data) ∨ SplitsAlpn data := by
  rcases parseClientHelloInfo_peeked data with ⟨e, herror⟩ | ⟨version, ciphers, hnone⟩ |
    ⟨hello, block, afterBlock, hfits, rfl, htail, hblock⟩
  · exact .inl ⟨_, computeJa4_of_error herror⟩
  · left
    rw [computeJa4_safe_of_info hnone, fingerprint_safe_iff]
    exact fun _ => safe_pure _
  rcases hello.parseClientHelloInfo_items_or hfits htail hblock with ⟨items, hitems⟩ | herror
  · rw [computeJa4_safe_of_info (hello.parseClientHelloInfo_items hfits htail hblock hitems),
      fingerprint_safe_iff, firstAlpn_safe_iff]
    by_cases hsafe : (versionName hello.version).isSome = true →
        ∀ name names, namesAfter items [] = name :: names →
          isCharBoundary name (min (byteLen name) 2) = true
    · exact .inl hsafe
    · right
      push Not at hsafe
      obtain ⟨hversion, name, names, hnames, hsplit⟩ := hsafe
      exact ⟨hello, block, afterBlock, items, name, names, hfits, rfl, hversion, htail, hblock,
        hitems, namesAfter_eq_cons_iff.mp hnames, hsplit⟩
  · exact .inl ⟨_, computeJa4_of_error herror⟩

/-! ### Well-formed hellos -/

/-- A ClientHello; a client may leave out the extension block. -/
structure ClientHello where
  recordVersion : UInt16
  version : UInt16
  random : Bytes
  sessionId : Bytes
  cipherSuites : List UInt16
  compression : Bytes
  extensions : Option (List (UInt16 × Bytes))

def extensionBytes (item : UInt16 × Bytes) : Bytes := u16ToBe item.1 ++ vector16 item.2

namespace ClientHello

variable (hello : ClientHello)

def items : List (UInt16 × Bytes) := hello.extensions.getD []

def tail : Bytes :=
  match hello.extensions with
  | none => []
  | some items => vector16 (items.flatMap extensionBytes)

/-- The record it is sent in, with `rest` behind it. -/
def record (rest : Bytes) : PeekedHello where
  recordVersion := hello.recordVersion
  version := hello.version
  random := hello.random
  sessionId := hello.sessionId
  cipherSuites := hello.cipherSuites.flatMap u16ToBe
  compression := hello.compression
  tail := hello.tail
  afterMessage := []
  afterRecord := rest

/-- Every part fits into its length field, and the message into a record. -/
structure WellFormed : Prop where
  random : hello.random.length = 32
  sessionId : hello.sessionId.length < 256
  cipherSuites : 2 * hello.cipherSuites.length < 65536
  compression : hello.compression.length < 256
  extension : ∀ item ∈ hello.items, item.2.length < 65536
  extensions : (hello.items.flatMap extensionBytes).length < 65536
  message : (hello.record []).message.length < 65536

/-- At most one ALPN extension. -/
def OneAlpn : Prop := (hello.items.filter fun item => item.1 == 0x0010).length ≤ 1

/-- The same version, cipher suites and extensions, in any order, up to GREASE extensions. -/
structure SameUpToOrder (hello hello' : ClientHello) : Prop where
  version : hello'.version = hello.version
  cipherSuites : hello'.cipherSuites.Perm hello.cipherSuites
  extensions : (hello'.items.filter fun item => !isGrease item.1).Perm
    (hello.items.filter fun item => !isGrease item.1)

variable {hello}

theorem WellFormed.fits (h : hello.WellFormed) (rest : Bytes) : (hello.record rest).Fits := by
  have hbody : (hello.record rest).body.length < 16777216 := by
    have hmessage := h.message
    unfold PeekedHello.message vector24 at hmessage
    simp only [List.length_cons, List.length_append] at hmessage
    show (hello.record []).body.length < 16777216
    omega
  refine ⟨h.random, h.sessionId, ?_, h.compression, hbody, h.message⟩
  show (hello.cipherSuites.flatMap u16ToBe).length < 65536
  rw [length_flatMap_u16ToBe]
  exact h.cipherSuites

theorem extensionsIn_written {items : List (UInt16 × Bytes)}
    (h : ∀ item ∈ items, item.2.length < 65536) :
    ExtensionsIn (items.flatMap extensionBytes) items := by
  induction items with
  | nil => exact .rest (by decide)
  | cons item items ih =>
    obtain ⟨hitem, hitems⟩ := List.forall_mem_cons.mp h
    rw [List.flatMap_cons, extensionBytes, List.append_assoc]
    exact .extension hitem (ih hitems)

theorem segments_flatMap (numbers : List UInt16) :
    segments (numbers.flatMap u16ToBe) = numbers := by
  induction numbers with
  | nil => rfl
  | cons n numbers ih => rw [List.flatMap_cons, segments_u16ToBe_append, ih]

/-- The parser returns what was sent. -/
theorem WellFormed.parseClientHelloInfo_record (h : hello.WellFormed) (rest : Bytes) :
    parseClientHelloInfo (hello.record rest).bytes =
      .ok (.ok (some (infoOf hello.version hello.cipherSuites hello.items))) := by
  have hciphers : segments (hello.record rest).cipherSuites = hello.cipherSuites :=
    segments_flatMap _
  cases hext : hello.extensions with
  | none =>
    have htail : (hello.record rest).tail = [] := by
      simp [record, tail, hext]
    have hitems : hello.items = [] := by simp [items, hext]
    rw [PeekedHello.parseClientHelloInfo_bytes (h.fits rest), htail, hciphers, parseInfoExtensions,
      if_pos (by simp), hitems]
    rfl
  | some items =>
    have hitems : hello.items = items := by simp [ClientHello.items, hext]
    have htail :
        (hello.record rest).tail = vector16 (hello.items.flatMap extensionBytes) ++ [] := by
      simp [record, tail, hext, hitems]
    rw [PeekedHello.parseClientHelloInfo_items (h.fits rest) htail h.extensions
      (extensionsIn_written h.extension), hciphers]
    rfl

end ClientHello

/-! ### Order and GREASE -/

theorem sortedList_perm {values values' : List UInt16}
    (h : (values'.filter fun v => !isGrease v).Perm (values.filter fun v => !isGrease v)) :
    sortedList values' = sortedList values := by
  have hperm := ((List.perm_insertionSort (· ≤ ·) _).trans h).trans
    (List.perm_insertionSort (· ≤ ·) _).symm
  unfold sortedList
  rw [hperm.eq_of_pairwise' (List.pairwise_insertionSort _ _) (List.pairwise_insertionSort _ _)]

/-- The names depend on the ALPN extensions alone. -/
theorem namesAfter_filter (items : List (UInt16 × Bytes)) (names : List Str) :
    namesAfter (items.filter fun item => item.1 == 0x0010) names = namesAfter items names := by
  induction items generalizing names with
  | nil => rfl
  | cons item items ih =>
    unfold namesAfter at ih ⊢
    by_cases hitem : item.1 = 0x0010
    · rw [List.filter_cons_of_pos (by simp [hitem]), List.foldl_cons, List.foldl_cons, ih]
    · rw [List.filter_cons_of_neg (by simp [hitem]), List.foldl_cons, if_neg hitem, ih]

/-- GREASE values are neither ALPN nor a server name. -/
theorem filter_filter_grease {value : UInt16} (hvalue : isGrease value = false)
    (items : List (UInt16 × Bytes)) :
    (items.filter fun item => !isGrease item.1).filter (fun item => item.1 == value) =
      items.filter fun item => item.1 == value := by
  rw [List.filter_filter]
  refine List.filter_congr fun item _ => ?_
  by_cases hitem : item.1 = value
  · simp [hitem, hvalue]
  · simp [hitem]

theorem eq_of_perm_of_length_le_one {α : Type} {l l' : List α} (h : l'.Perm l)
    (hl : l.length ≤ 1) : l' = l := by
  match l, hl with
  | [], _ => exact h.eq_nil
  | [a], _ => exact List.perm_singleton.mp h

namespace ClientHello

variable {hello hello' : ClientHello}

/-- The extensions of a type that is not GREASE are the same. -/
theorem SameUpToOrder.filter_perm (h : SameUpToOrder hello hello') {value : UInt16}
    (hvalue : isGrease value = false) :
    (hello'.items.filter fun item => item.1 == value).Perm
      (hello.items.filter fun item => item.1 == value) := by
  have hperm := h.extensions.filter fun item => item.1 == value
  rwa [filter_filter_grease hvalue, filter_filter_grease hvalue] at hperm

theorem SameUpToOrder.names_eq (h : SameUpToOrder hello hello') (hone : hello.OneAlpn) :
    namesAfter hello'.items [] = namesAfter hello.items [] := by
  have hperm := h.filter_perm (show isGrease 0x0010 = false by decide)
  rw [← namesAfter_filter hello'.items, eq_of_perm_of_length_le_one hperm hone, namesAfter_filter]

theorem any_eq_of_filter (items : List (UInt16 × Bytes)) (value : UInt16) :
    (items.any fun item => item.1 == value) =
      !(items.filter fun item => item.1 == value).isEmpty := by
  induction items with
  | nil => rfl
  | cons item items ih =>
    by_cases hitem : item.1 = value <;> simp [hitem, ih]

theorem SameUpToOrder.any_eq (h : SameUpToOrder hello hello') {value : UInt16}
    (hvalue : isGrease value = false) :
    (hello'.items.any fun item => item.1 == value) =
      hello.items.any fun item => item.1 == value := by
  rw [any_eq_of_filter, any_eq_of_filter, (h.filter_perm hvalue).isEmpty_eq]

/-- The fingerprint of what the parser returns. -/
theorem SameUpToOrder.fingerprint_eq (h : SameUpToOrder hello hello') (hone : hello.OneAlpn) :
    fingerprint sha256 (infoOf hello'.version hello'.cipherSuites hello'.items) =
      fingerprint sha256 (infoOf hello.version hello.cipherSuites hello.items) := by
  have htypes := h.extensions.map Prod.fst
  have hfilter : ∀ items : List (UInt16 × Bytes),
      (items.filter fun item => !isGrease item.1).map Prod.fst =
        (items.map Prod.fst).filter fun v => !isGrease v := by
    intro items
    rw [List.filter_map]
    rfl
  rw [hfilter, hfilter] at htypes
  unfold fingerprint infoOf
  simp only
  rw [h.version, h.cipherSuites.length_eq, sortedList_perm (h.cipherSuites.filter _),
    sortedList_perm htypes, h.names_eq hone,
    h.any_eq (show isGrease 0x0000 = false by decide)]

end ClientHello

/-- **Inspection of a ClientHello.** The server name is extracted without a panic. The fingerprint
    is computed without one exactly if the first ALPN name does not have a character across its
    second byte; it does not depend on the order of cipher suites and extensions, nor on GREASE
    extensions. -/
theorem hello_inspection (sha256 : Bytes → Vector UInt8 32) :
    (∀ data, Safe (extractSni data) ∧ (Safe (computeJa4 sha256 data) ↔ ¬ SplitsAlpn data)) ∧
    ∀ (hello hello' : ClientHello) (rest rest' : Bytes),
      hello.WellFormed → hello'.WellFormed → hello.OneAlpn →
      ClientHello.SameUpToOrder hello hello' →
      computeJa4 sha256 (hello'.record rest').bytes =
        computeJa4 sha256 (hello.record rest).bytes := by
  refine ⟨fun data => ⟨extractSni_safe data, fun hsafe hsplit =>
    not_safe_of_splitsAlpn hsplit hsafe, (safe_or_splitsAlpn sha256 data).resolve_right⟩, ?_⟩
  intro hello hello' rest rest' hwell hwell' hone hsame
  rw [computeJa4_of_info (hwell.parseClientHelloInfo_record rest),
    computeJa4_of_info (hwell'.parseClientHelloInfo_record rest'), hsame.fingerprint_eq hone]

/-- A hello that offers one protocol. -/
def alpnHello (cipherSuites : List UInt16) (greased : List (UInt16 × Bytes)) (name : Bytes) :
    ClientHello where
  recordVersion := 0x0301
  version := 0x0303
  random := List.replicate 32 0
  sessionId := []
  cipherSuites := cipherSuites
  compression := [0]
  extensions := some (greased ++ [(0x0010, vector16 (vector8 name))])

/-- SHA-256 of `1301,1302`, and of `0010`. -/
def knownDigests (input : Bytes) : Vector UInt8 32 :=
  if input = utf8 "1301,1302".toList then
    #v[98, 237, 111, 108, 167, 173, 26, 171, 195, 39, 252, 177, 211, 209, 116, 235, 82, 78, 62, 117,
      14, 1, 79, 25, 50, 135, 60, 162, 141, 87, 140, 251]
  else
    #v[11, 8, 227, 220, 197, 15, 228, 229, 206, 233, 176, 179, 166, 113, 168, 219,
      147, 111, 131, 53,
      186, 144, 80, 105, 109, 65, 203, 185, 160, 127, 34, 227]

theorem shuffled_greased_hello :
    computeJa4 knownDigests
      ((alpnHello [0x1302, 0x1301] [(0x0A0A, [])] [0x68, 0x32]).record []).bytes =
      computeJa4 knownDigests ((alpnHello [0x1301, 0x1302] [] [0x68, 0x32]).record []).bytes := by
  refine (hello_inspection knownDigests).2 _ _ [] [] ?_ ?_ ?_ ?_
  · exact ⟨by decide, by decide, by decide, by decide, by decide, by decide, by decide⟩
  · exact ⟨by decide, by decide, by decide, by decide, by decide, by decide, by decide⟩
  · unfold ClientHello.OneAlpn
    decide
  · exact ⟨rfl, by decide, by decide⟩

/-- The first two bytes of the protocol name `€`. -/
theorem euro_alpn_panics :
    ¬ Safe (computeJa4 knownDigests ((alpnHello [0x1301] [] (utf8 ['€'])).record []).bytes) := by
  have hwell : (alpnHello [0x1301] [] (utf8 ['€'])).WellFormed :=
    ⟨by decide, by decide, by decide, by decide, by decide, by decide, by decide⟩
  apply not_safe_of_splitsAlpn
  refine ⟨_, (alpnHello [0x1301] [] (utf8 ['€'])).items.flatMap extensionBytes, [], _, ['€'], [],
    hwell.fits [], rfl, by decide, by simp [ClientHello.record, ClientHello.tail, alpnHello,
      ClientHello.items], hwell.extensions, ClientHello.extensionsIn_written hwell.extension, ?_,
    by decide⟩
  have hnames : NamesIn (vector8 (utf8 ['€'])) [utf8 ['€']] := by
    have hone := NamesIn.name (show (utf8 ['€']).length < 256 by decide) .done
    rwa [List.append_nil] at hone
  have hoffer := @OffersNames.intro [] [] (vector8 (utf8 ['€'])) [] _ (by simp) (by decide) hnames
  rw [List.filterMap_cons_some (fromUtf8_utf8 ['€']), List.append_nil] at hoffer
  exact hoffer

end Synvoid.Tls
