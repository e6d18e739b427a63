import Synvoid.Http.Grammar

/-! # Cache keys

    Model of `CacheKey` (`synvoid-proxy-cache/src/key.rs`). The scheme, the method,
    the host, the path with the query and the site are fields of a key, so equal
    keys agree in them. The headers of `vary_by` go into one text: the first
    value of each, as `name:value`, and none if it is not visible ASCII, joined by
    bars.

    Values that are not read are therefore not told apart, whichever header
    `vary_by` names (`separates_iff`). Among values without bars those that are
    read are (`entries_of_varyText`).
-/

namespace Synvoid.ProxyCache

open Synvoid.Framework Synvoid.Http

/-! ### Requests -/

/-- What `PathAndQuery` displays: a path that is not empty, and the query. -/
structure PathAndQuery where
  path : Str
  query : Option Str
  path_ne_nil : path ≠ []
  no_mark : '?' ∉ path

def PathAndQuery.text (pq : PathAndQuery) : Str :=
  match pq.query with
  | none => pq.path
  | some query => pq.path ++ '?' :: query

/-- A URI has a path unless it is an authority alone. -/
structure Uri where
  pathAndQuery : Option PathAndQuery

structure CacheRequest where
  scheme : Str
  method : Str
  host : Str
  uri : Uri
  headers : HeaderMap
  siteId : Str

/-- What `HeaderName` accepts. -/
def isHeaderName (name : Str) : Bool :=
  !name.isEmpty && (utf8 name).all isTchar && byteLen name ≤ 65535

/-- `get_all` with a name in any case. -/
def headerValues (headers : HeaderMap) (name : Str) : List HeaderValue :=
  if isHeaderName name then headers.getAll (String.ofList (name.map Char.toLower)) else []

/-! ### Keys -/

structure CacheKey where
  scheme : Str
  method : Str
  host : Str
  uri : Str
  vary : Str
  siteId : Str
  deriving DecidableEq

namespace CacheKey

/-- One byte of the pattern at a time, or a whole placeholder. -/
def replaceFrom (replacements : List (Str × Str)) : Nat → Bytes → Str
  | 0, _ => []
  | _, [] => []
  | fuel + 1, b :: rest =>
      match replacements.find? fun r => (utf8 r.1).isPrefixOf (b :: rest) with
      | some (placeholder, replacement) =>
          replacement ++ replaceFrom replacements fuel ((b :: rest).drop (byteLen placeholder))
      | none => Char.ofNat b.toNat :: replaceFrom replacements fuel rest

def replacePatternSinglePass (pattern : Str) (replacements : List (Str × Str)) : Str :=
  replaceFrom replacements (byteLen pattern) (utf8 pattern)

/-- The value of a header that goes into the key. -/
def varyValue (headers : HeaderMap) (headerName : Str) : Option Str :=
  (headerValues headers headerName).head?.bind HeaderValue.toStr

def buildVaryKey (headers : HeaderMap) (varyBy : List Str) : Str :=
  if varyBy.isEmpty then []
  else
    ['|'].intercalate (varyBy.filterMap fun headerName =>
      (varyValue headers headerName).map fun v => headerName ++ ':' :: v)

/-- `hash` is the hash of the replaced pattern and the vary key. -/
def new (hash : Str → Str → UInt64) (request : CacheRequest) (keyPattern : Str)
    (varyBy : List Str) : CacheKey :=
  let uriStr := (request.uri.pathAndQuery.map PathAndQuery.text).getD []
  let vary := buildVaryKey request.headers varyBy
  let key := replacePatternSinglePass keyPattern
    [("$scheme".toList, request.scheme), ("$request_method".toList, request.method),
      ("$host".toList, request.host), ("$request_uri".toList, uriStr),
      ("$site_id".toList, request.siteId)]
  { scheme := request.scheme
    method := request.method
    host := request.host
    uri := decimal (hash key vary).toNat ++ ':' :: uriStr
    vary := vary
    siteId := request.siteId }

end CacheKey

example : CacheKey.replacePatternSinglePass "$host$x$site_id".toList
    [("$host".toList, "a".toList), ("$site_id".toList, "b".toList)] = "a$xb".toList := by decide

/-! ### Variants -/

/-- The requests agree in everything but the headers. -/
structure SameTarget (r₁ r₂ : CacheRequest) : Prop where
  scheme : r₁.scheme = r₂.scheme
  method : r₁.method = r₂.method
  host : r₁.host = r₂.host
  pathAndQuery : r₁.uri.pathAndQuery = r₂.uri.pathAndQuery
  siteId : r₁.siteId = r₂.siteId

/-- The requests have the same values of the headers. -/
def SameValues (varyBy : List Str) (r₁ r₂ : CacheRequest) : Prop :=
  ∀ name ∈ varyBy, headerValues r₁.headers name = headerValues r₂.headers name

/-- The requests ask for the same variant. -/
def SameVariant (varyBy : List Str) (r₁ r₂ : CacheRequest) : Prop :=
  SameTarget r₁ r₂ ∧ SameValues varyBy r₁ r₂

/-- The texts that are read of the headers are the same. -/
def SameRead (varyBy : List Str) (r₁ r₂ : CacheRequest) : Prop :=
  ∀ name ∈ varyBy, CacheKey.varyValue r₁.headers name = CacheKey.varyValue r₂.headers name

/-- No text that is read has a bar. -/
def NoBars (varyBy : List Str) (r : CacheRequest) : Prop :=
  ∀ name ∈ varyBy, ∀ v, CacheKey.varyValue r.headers name = some v → '|' ∉ v

theorem PathAndQuery.text_injective {pq₁ pq₂ : PathAndQuery} (h : pq₁.text = pq₂.text) :
    pq₁ = pq₂ := by
  obtain ⟨path₁, query₁, hne₁, hmark₁⟩ := pq₁
  obtain ⟨path₂, query₂, hne₂, hmark₂⟩ := pq₂
  have hsplit := congrArg (splitOnce '?') h
  cases query₁ with
  | none =>
    cases query₂ with
    | none =>
      obtain rfl : path₁ = path₂ := h
      rfl
    | some query₂ =>
      have hmem : '?' ∈ path₁ := by
        have htext : path₁ = path₂ ++ '?' :: query₂ := h
        rw [htext]
        simp
      exact absurd hmem hmark₁
  | some query₁ =>
    cases query₂ with
    | none =>
      have hmem : '?' ∈ path₂ := by
        have htext : path₁ ++ '?' :: query₁ = path₂ := h
        rw [← htext]
        simp
      exact absurd hmem hmark₂
    | some query₂ =>
      simp only [PathAndQuery.text, splitOnce_append hmark₁, splitOnce_append hmark₂,
        Option.some.injEq, Prod.mk.injEq] at hsplit
      obtain ⟨rfl, rfl⟩ := hsplit
      rfl

theorem PathAndQuery.text_ne_nil (pq : PathAndQuery) : pq.text ≠ [] := by
  unfold PathAndQuery.text
  split
  · exact pq.path_ne_nil
  · simp

/-- The path and the query are read back from their text. -/
theorem pathAndQuery_eq_of_text {u₁ u₂ : Uri}
    (h : (u₁.pathAndQuery.map PathAndQuery.text).getD [] =
      (u₂.pathAndQuery.map PathAndQuery.text).getD []) : u₁.pathAndQuery = u₂.pathAndQuery := by
  cases h₁ : u₁.pathAndQuery with
  | none =>
    cases h₂ : u₂.pathAndQuery with
    | none => rfl
    | some pq₂ =>
      rw [h₁, h₂] at h
      exact absurd h.symm pq₂.text_ne_nil
  | some pq₁ =>
    cases h₂ : u₂.pathAndQuery with
    | none =>
      rw [h₁, h₂] at h
      exact absurd h pq₁.text_ne_nil
    | some pq₂ =>
      rw [h₁, h₂] at h
      rw [PathAndQuery.text_injective h]

/-- Keys are equal for the same target and the same text of the headers. -/
theorem new_eq_iff (hash : Str → Str → UInt64) (r₁ r₂ : CacheRequest) (keyPattern : Str)
    (varyBy : List Str) :
    CacheKey.new hash r₁ keyPattern varyBy = CacheKey.new hash r₂ keyPattern varyBy ↔
      SameTarget r₁ r₂ ∧
        CacheKey.buildVaryKey r₁.headers varyBy = CacheKey.buildVaryKey r₂.headers varyBy := by
  constructor
  · intro h
    have huri := (decimal_append_inj (by decide) (congrArg CacheKey.uri h)).2
    exact ⟨⟨congrArg CacheKey.scheme h, congrArg CacheKey.method h, congrArg CacheKey.host h,
      pathAndQuery_eq_of_text huri, congrArg CacheKey.siteId h⟩, congrArg CacheKey.vary h⟩
  · rintro ⟨⟨hscheme, hmethod, hhost, hpath, hsite⟩, hvary⟩
    unfold CacheKey.new
    simp only [hscheme, hmethod, hhost, hpath, hsite, hvary]

/-! ### The text of the headers -/

/-- The headers that go into the key, with their values. -/
def varyEntries (headers : HeaderMap) (varyBy : List Str) : List (Str × Str) :=
  varyBy.filterMap fun name => (CacheKey.varyValue headers name).map fun v => (name, v)

def entryText (entry : Str × Str) : Str := entry.1 ++ ':' :: entry.2

def varyText (entries : List (Str × Str)) : Str := ['|'].intercalate (entries.map entryText)

theorem buildVaryKey_eq (headers : HeaderMap) (varyBy : List Str) :
    CacheKey.buildVaryKey headers varyBy = varyText (varyEntries headers varyBy) := by
  have hentries : (varyEntries headers varyBy).map entryText =
      varyBy.filterMap fun name =>
        (CacheKey.varyValue headers name).map fun v => name ++ ':' :: v := by
    rw [varyEntries, List.map_filterMap]
    refine List.filterMap_congr fun name _ => ?_
    rw [Option.map_map]
    rfl
  rw [CacheKey.buildVaryKey, varyText, hentries]
  cases varyBy with
  | nil => rfl
  | cons name names => rfl

theorem mem_varyEntries {headers : HeaderMap} {varyBy : List Str} {name v : Str} :
    (name, v) ∈ varyEntries headers varyBy ↔
      name ∈ varyBy ∧ CacheKey.varyValue headers name = some v := by
  simp only [varyEntries, List.mem_filterMap, Option.map_eq_some_iff, Prod.mk.injEq]
  constructor
  · rintro ⟨name', hmem, v', hv, rfl, rfl⟩
    exact ⟨hmem, hv⟩
  · rintro ⟨hmem, hv⟩
    exact ⟨name, hmem, v, hv, rfl, rfl⟩

/-- A header name has no colon. -/
theorem no_colon_of_varyValue {headers : HeaderMap} {name v : Str}
    (h : CacheKey.varyValue headers name = some v) : ':' ∉ name := by
  intro hcolon
  have hname : isHeaderName name = true := by
    by_contra hnot
    rw [CacheKey.varyValue, headerValues, if_neg hnot] at h
    cases h
  simp only [isHeaderName, Bool.and_eq_true] at hname
  have hbyte : (58 : UInt8) ∈ utf8 name :=
    List.mem_flatMap.mpr ⟨':', hcolon, by decide⟩
  exact absurd (List.all_eq_true.mp hname.1.2 58 hbyte) (by decide)

theorem varyText_cons (name v : Str) (entries : List (Str × Str)) :
    varyText ((name, v) :: entries) =
      name ++ ':' :: (v ++ if entries = [] then [] else '|' :: varyText entries) := by
  cases entries with
  | nil => simp [varyText, entryText, List.intercalate]
  | cons e es => simp [varyText, entryText, List.intercalate]

theorem append_delimiter_inj {c : Char} {s t x y : Str} (hs : c ∉ s) (ht : c ∉ t)
    (h : s ++ c :: x = t ++ c :: y) : s = t ∧ x = y := by
  have hsplit := congrArg (splitOnce c) h
  rw [splitOnce_append hs, splitOnce_append ht] at hsplit
  exact Prod.mk.inj (Option.some.inj hsplit)

/-- Names without colons and values without bars are read back from the text. -/
theorem entries_of_varyText {es₁ es₂ : List (Str × Str)}
    (h₁ : ∀ e ∈ es₁, ':' ∉ e.1 ∧ '|' ∉ e.2) (h₂ : ∀ e ∈ es₂, ':' ∉ e.1 ∧ '|' ∉ e.2)
    (h : varyText es₁ = varyText es₂) : es₁ = es₂ := by
  induction es₁ generalizing es₂ with
  | nil =>
    cases es₂ with
    | nil => rfl
    | cons e₂ es₂ =>
      rw [varyText_cons e₂.1 e₂.2] at h
      simp [varyText, List.intercalate] at h
  | cons e₁ es₁ ih =>
    obtain ⟨name₁, v₁⟩ := e₁
    cases es₂ with
    | nil =>
      rw [varyText_cons] at h
      simp [varyText, List.intercalate] at h
    | cons e₂ es₂ =>
      obtain ⟨name₂, v₂⟩ := e₂
      obtain ⟨⟨hname₁, hv₁⟩, hes₁⟩ := List.forall_mem_cons.mp h₁
      obtain ⟨⟨hname₂, hv₂⟩, hes₂⟩ := List.forall_mem_cons.mp h₂
      rw [varyText_cons, varyText_cons] at h
      obtain ⟨rfl, hrest⟩ := append_delimiter_inj hname₁ hname₂ h
      split_ifs at hrest with hnil₁ hnil₂ hnil₂
      · rw [hnil₁, hnil₂, List.append_nil, List.append_nil] at *
        rw [hrest]
      · rw [List.append_nil] at hrest
        exact absurd (by rw [hrest]; simp) hv₁
      · rw [List.append_nil] at hrest
        exact absurd (by rw [← hrest]; simp) hv₂
      · obtain ⟨rfl, htexts⟩ := append_delimiter_inj hv₁ hv₂ hrest
        rw [ih hes₁ hes₂ htexts]

/-- The text of the headers is the same if what is read is. -/
theorem buildVaryKey_congr {varyBy : List Str} {r₁ r₂ : CacheRequest}
    (h : SameRead varyBy r₁ r₂) :
    CacheKey.buildVaryKey r₁.headers varyBy = CacheKey.buildVaryKey r₂.headers varyBy := by
  rw [buildVaryKey_eq, buildVaryKey_eq, varyEntries, varyEntries]
  congr 1
  exact List.filterMap_congr fun name hname => by rw [h name hname]

/-- Without bars it is the same only then. -/
theorem sameRead_of_buildVaryKey {varyBy : List Str} {r₁ r₂ : CacheRequest}
    (hbars₁ : NoBars varyBy r₁) (hbars₂ : NoBars varyBy r₂)
    (h : CacheKey.buildVaryKey r₁.headers varyBy = CacheKey.buildVaryKey r₂.headers varyBy) :
    SameRead varyBy r₁ r₂ := by
  rw [buildVaryKey_eq, buildVaryKey_eq] at h
  have hplain : ∀ r, NoBars varyBy r →
      ∀ e ∈ varyEntries r.headers varyBy, ':' ∉ e.1 ∧ '|' ∉ e.2 := by
    rintro r hbars ⟨name, v⟩ he
    obtain ⟨hmem, hv⟩ := mem_varyEntries.mp he
    exact ⟨no_colon_of_varyValue hv, hbars name hmem v hv⟩
  have hentries := entries_of_varyText (hplain r₁ hbars₁) (hplain r₂ hbars₂) h
  intro name hname
  refine Option.ext fun v => ?_
  have hmem : (name, v) ∈ varyEntries r₁.headers varyBy ↔
      (name, v) ∈ varyEntries r₂.headers varyBy := by rw [hentries]
  rw [mem_varyEntries, mem_varyEntries] at hmem
  simpa [hname] using hmem

/-! ### Separation -/

/-- A value that is not text. -/
def binaryValue : HeaderValue where
  bytes := [0x80]
  valid := by decide

/-- A request with the given headers. -/
def requestWith (headers : HeaderMap) : CacheRequest where
  scheme := "https".toList
  method := "GET".toList
  host := "example.com".toList
  uri := ⟨none⟩
  headers := headers
  siteId := "main".toList

/-- A header whose value is no text is read as if it were absent. -/
theorem sameRead_binary (varyBy : List Str) (name : String) :
    SameRead varyBy (requestWith []) (requestWith [(name, binaryValue)]) := by
  intro name' _
  have hvalues : headerValues [(name, binaryValue)] name' = [] ∨
      headerValues [(name, binaryValue)] name' = [binaryValue] := by
    unfold headerValues HeaderMap.getAll
    split_ifs
    · by_cases hname : name = String.ofList (name'.map Char.toLower)
      · exact .inr (by simp [hname])
      · exact .inl (by simp [hname])
    · exact .inl rfl
  have habsent : CacheKey.varyValue [] name' = none := by
    unfold CacheKey.varyValue headerValues
    split_ifs <;> rfl
  have hbinary : CacheKey.varyValue [(name, binaryValue)] name' = none := by
    unfold CacheKey.varyValue
    rcases hvalues with hnone | hone
    · rw [hnone]
      rfl
    · rw [hone]
      decide
  exact habsent.trans hbinary.symm

/-- **Separation**: keys tell all variants apart exactly if `vary_by` names no
    header. Two requests without bars in what is read are told apart exactly if
    they agree in what is not read whenever they agree in the rest. -/
theorem separates_iff (hash : Str → Str → UInt64) (keyPattern : Str) (varyBy : List Str) :
    ((∀ r₁ r₂, CacheKey.new hash r₁ keyPattern varyBy = CacheKey.new hash r₂ keyPattern varyBy →
        SameVariant varyBy r₁ r₂) ↔ ∀ name ∈ varyBy, isHeaderName name = false) ∧
    ∀ r₁ r₂, NoBars varyBy r₁ → NoBars varyBy r₂ →
      ((CacheKey.new hash r₁ keyPattern varyBy = CacheKey.new hash r₂ keyPattern varyBy →
          SameVariant varyBy r₁ r₂) ↔
        (SameTarget r₁ r₂ → SameRead varyBy r₁ r₂ → SameValues varyBy r₁ r₂)) := by
  refine ⟨⟨fun h name hname => ?_, fun hnames r₁ r₂ hkey => ?_⟩, fun r₁ r₂ hbars₁ hbars₂ => ?_⟩
  · by_contra hheader
    rw [Bool.not_eq_false] at hheader
    have hsame := h (requestWith [])
      (requestWith [(String.ofList (name.map Char.toLower), binaryValue)])
      ((new_eq_iff hash _ _ keyPattern varyBy).mpr
        ⟨⟨rfl, rfl, rfl, rfl, rfl⟩, buildVaryKey_congr (sameRead_binary varyBy _)⟩)
    have hvalues := hsame.2 name hname
    simp [headerValues, hheader, requestWith, HeaderMap.getAll] at hvalues
  · refine ⟨((new_eq_iff hash r₁ r₂ keyPattern varyBy).mp hkey).1, fun name hname => ?_⟩
    rw [headerValues, headerValues, hnames name hname]
    rfl
  · constructor
    · intro h htarget hread
      exact (h ((new_eq_iff hash r₁ r₂ keyPattern varyBy).mpr
        ⟨htarget, buildVaryKey_congr hread⟩)).2
    · intro h hkey
      obtain ⟨htarget, hvary⟩ := (new_eq_iff hash r₁ r₂ keyPattern varyBy).mp hkey
      exact ⟨htarget, h htarget (sameRead_of_buildVaryKey hbars₁ hbars₂ hvary)⟩

/-- `Accept-Encoding: gzip`, alone and with a second line `br`. -/
theorem second_value_not_in_key (hash : Str → Str → UInt64) :
    CacheKey.new hash (requestWith (.ofLines [("accept-encoding", "gzip")])) "$host".toList
        ["Accept-Encoding".toList] =
      CacheKey.new hash (requestWith (.ofLines [("accept-encoding", "gzip"),
        ("accept-encoding", "br")])) "$host".toList ["Accept-Encoding".toList] := by
  refine (new_eq_iff hash _ _ _ _).mpr ⟨⟨rfl, rfl, rfl, rfl, rfl⟩, by decide⟩

/-- Two variants under one key. -/
theorem variants_share_keys :
    ¬ (∀ (hash : Str → Str → UInt64) (keyPattern : Str) (varyBy : List Str)
      (r₁ r₂ : CacheRequest),
      CacheKey.new hash r₁ keyPattern varyBy = CacheKey.new hash r₂ keyPattern varyBy →
      SameVariant varyBy r₁ r₂) := by
  intro h
  have hsame := h (fun _ _ => 0) "$host".toList ["Accept-Encoding".toList]
    (requestWith (.ofLines [("accept-encoding", "gzip")]))
    (requestWith (.ofLines [("accept-encoding", "gzip"), ("accept-encoding", "br")]))
    (second_value_not_in_key _)
  have hlength := congrArg List.length (hsame.2 "Accept-Encoding".toList (by simp))
  revert hlength
  decide

end Synvoid.ProxyCache
