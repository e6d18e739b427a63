import Synvoid.Framework.Parts
import Synvoid.Http.ClientIp
import Synvoid.Http.Grammar

/-! # Headers of forwarded requests and responses

    Model of the header handling in `synvoid-proxy/src/headers.rs`:
    `build_forward_headers` with `validate_and_truncate_xff` for the request
    that a backend gets, and `filter_response_headers`,
    `filter_response_headers_buf` and `apply_response_header_transforms` for
    the response that goes back.

    All of them but `filter_response_headers` copy the lines of a map with
    `insert` (`keepHeaders`), so of several lines of one name the last one goes
    through (`getAll_keepHeaders`).

    A chain of proxies that trust one another hands the address of the client
    on: each writes it last into `X-Forwarded-For`, and the next one reads it
    there (`client_ip_through_chain`).
-/

namespace Synvoid.Proxy

open Synvoid.Framework Synvoid.Http

/-! ## Section 1: The model -/

def hopByHopHeaders : List String :=
  ["connection", "keep-alive", "close", "proxy-authenticate", "proxy-authorization", "te",
    "trailers", "transfer-encoding", "upgrade"]

def toAsciiLowercase (s : Str) : Str := s.map Char.toLower

/-- `HeaderName::from_bytes`: a token, in lower case. -/
def parseHeaderName (s : Str) : Option String :=
  if s ≠ [] ∧ byteLen s ≤ 65535 ∧ (utf8 s).all isTchar then
    some (String.ofList (toAsciiLowercase s))
  else none

def isHopByHopHeaderName (name : String) : Bool := hopByHopHeaders.contains name

def isHopByHopHeader (name : String) : Bool :=
  match parseHeaderName name.toList with
  | some parsed => isHopByHopHeaderName parsed
  | none => hopByHopHeaders.any fun h => eqIgnoreAsciiCase h.toList name.toList

structure HeaderOverride where
  name : Str
  value : Str

structure ProxyHeadersConfig where
  clear : List Str
  set : List HeaderOverride
  forward : List Str
  hide : List Str

inductive ForwardedProtocol where
  | http
  | https

def ForwardedProtocol.asStr : ForwardedProtocol → Str
  | .http => "http".toList
  | .https => "https".toList

/-- The lines whose names have `keep`, copied one after the other. -/
def keepHeaders (keep : String → Bool) (headers : HeaderMap) : HeaderMap :=
  headers.foldl (fun kept line => if keep line.1 then kept.insert line.1 line.2 else kept) []

/-- A text that is a value is inserted. -/
def insertText (headers : HeaderMap) (name : String) (text : Str) : HeaderMap :=
  (HeaderValue.ofChars text).elim headers fun value => headers.insert name value

/-- A line of `set`, if its name and its value can be parsed. -/
def applyOverride (headers : HeaderMap) (overrideHdr : HeaderOverride) : HeaderMap :=
  (parseHeaderName overrideHdr.name).elim headers fun name =>
    insertText headers name overrideHdr.value

def maxXffChainLength : Nat := 10

/-- The entries of the header that are addresses. -/
def xffAddresses (existing : Str) : List Str :=
  ((existing.splitOn ',').map trim).filter fun entry => entry ≠ [] && (IpAddr.parse entry).isSome

def validateAndTruncateXff (existing clientIp : Str) : Str :=
  let entries := xffAddresses existing
  let entries :=
    if entries.length ≥ maxXffChainLength then
      entries.drop (entries.length - maxXffChainLength + 1)
    else entries
  if entries = [] then clientIp
  else ", ".toList.intercalate entries ++ ", ".toList ++ clientIp

/-- The headers that the proxy writes itself, or leaves out. -/
def forwardingHeaders : List String :=
  ["x-forwarded-for", "x-real-ip", "forwarded", "x-forwarded-proto"]

/-- Whether a header of the request is sent on. -/
def ProxyHeadersConfig.sendsOn (config : ProxyHeadersConfig) (name : String) : Bool :=
  let lower := toAsciiLowercase name.toList
  !isHopByHopHeader name &&
  !(forwardingHeaders.any fun h => eqIgnoreAsciiCase name.toList h.toList) &&
    !((config.hide.map toAsciiLowercase).contains lower ||
      (config.clear.map toAsciiLowercase).contains lower) &&
    (config.forward.isEmpty || (config.forward.map toAsciiLowercase).contains ['*'] ||
      (config.forward.map toAsciiLowercase).contains lower)

def buildForwardHeaders (clientIp : IpAddr) (originalHeaders : HeaderMap)
    (config : ProxyHeadersConfig) (protocol : ForwardedProtocol) : HeaderMap :=
  let sent := keepHeaders config.sendsOn originalHeaders
  let existing := ((originalHeaders.get "x-forwarded-for").bind HeaderValue.toStr).getD []
  let headers :=
    insertText sent "x-forwarded-for" (validateAndTruncateXff existing clientIp.display)
  let headers := insertText headers "x-real-ip" clientIp.display
  let headers := insertText headers "x-forwarded-proto" protocol.asStr
  config.set.foldl applyOverride headers

/-- The names among the texts of a configuration. -/
def headerNames (texts : List Str) : List String := texts.filterMap parseHeaderName

def filterResponseHeaders (headers : HeaderMap) (headersToFilter : List Str) :
    List (String × Str) :=
  let toFilter := headerNames headersToFilter
  (headers.filter fun line => !toFilter.contains line.1 && !isHopByHopHeaderName line.1).filterMap
    fun line => line.2.toStr.map fun text => (line.1, text)

def filterResponseHeadersBuf (headers : HeaderMap) (toFilter : List String) : HeaderMap :=
  keepHeaders (fun name => !(isHopByHopHeaderName name || toFilter.contains name)) headers

/-- A pattern of `clear` or `hide`: with a `*` in it, what stands before the
    stars at its end begins the name. -/
def matchesPattern (pattern name : Str) : Bool :=
  let lower := toAsciiLowercase pattern
  if lower.contains '*' then (trimEndMatches '*' lower).isPrefixOf name else name == lower

def ProxyHeadersConfig.shouldRemove (config : ProxyHeadersConfig) (name : String) : Bool :=
  (config.clear ++ config.hide).any fun pattern => matchesPattern pattern name.toList

def applyResponseHeaderTransforms (headers : HeaderMap) (config : ProxyHeadersConfig) : HeaderMap :=
  if config.clear.isEmpty && config.set.isEmpty && config.hide.isEmpty then headers
  else config.set.foldl applyOverride (keepHeaders (fun name => !config.shouldRemove name) headers)

/-! ## Section 2: Lines of a map -/

theorem getAll_append (headers more : HeaderMap) (name : String) :
    (headers ++ more : HeaderMap).getAll name = headers.getAll name ++ more.getAll name := by
  unfold HeaderMap.getAll
  rw [List.filter_append, List.map_append]

theorem getAll_singleton (line : String × HeaderValue) (name : String) :
    HeaderMap.getAll [line] name = if line.1 = name then [line.2] else [] := by
  unfold HeaderMap.getAll
  split
  · next h => simp [h]
  · next h => simp [h]

theorem getAll_remove (headers : HeaderMap) (name other : String) :
    (headers.remove name).getAll other = if other = name then [] else headers.getAll other := by
  unfold HeaderMap.getAll HeaderMap.remove
  rw [List.filter_filter]
  split
  · next h =>
    subst h
    simp
  · next h =>
    congr 2
    funext line
    by_cases hline : line.1 = other
    · simp [hline, h]
    · simp [hline]

/-- An inserted value is the only one of its name. -/
theorem getAll_insert (headers : HeaderMap) (name other : String) (value : HeaderValue) :
    (headers.insert name value).getAll other =
      if other = name then [value] else headers.getAll other := by
  unfold HeaderMap.insert
  rw [getAll_append, getAll_remove, getAll_singleton]
  by_cases h : other = name
  · simp [h]
  · simp [h, Ne.symm h]

/-- Of the lines that are kept, the last one of each name is left. -/
theorem getAll_keepHeaders (keep : String → Bool) (headers : HeaderMap) (name : String) :
    (keepHeaders keep headers).getAll name =
      if keep name then (headers.getAll name).getLast?.toList else [] := by
  unfold keepHeaders
  induction headers using List.reverseRecOn with
  | nil => simp [HeaderMap.getAll]
  | append_singleton headers line ih =>
    rw [List.foldl_append, List.foldl_cons, List.foldl_nil, getAll_append, getAll_singleton]
    by_cases hline : line.1 = name
    · -- the last line replaces what was kept of its name
      subst hline
      by_cases hkeep : keep line.1 = true
      · rw [if_pos hkeep, getAll_insert, if_pos rfl, if_pos hkeep, if_pos rfl]
        simp
      · rw [if_neg hkeep, ih, if_neg hkeep, if_neg hkeep]
    · rw [if_neg hline, List.append_nil]
      split
      · rw [getAll_insert, if_neg (Ne.symm hline), ih]
      · exact ih

theorem getAll_insertText_of_ne {name other : String} (h : other ≠ name) (headers : HeaderMap)
    (text : Str) : (insertText headers name text).getAll other = headers.getAll other := by
  unfold insertText
  cases HeaderValue.ofChars text with
  | none => rfl
  | some value =>
    show (headers.insert name value).getAll other = _
    rw [getAll_insert, if_neg h]

/-- No line of `set` writes this header. -/
def ProxyHeadersConfig.Leaves (config : ProxyHeadersConfig) (name : String) : Prop :=
  ∀ overrideHdr ∈ config.set, parseHeaderName overrideHdr.name ≠ some name

instance (config : ProxyHeadersConfig) (name : String) : Decidable (config.Leaves name) :=
  inferInstanceAs (Decidable (∀ overrideHdr ∈ config.set,
    parseHeaderName overrideHdr.name ≠ some name))

theorem getAll_applyOverride_of_ne {overrideHdr : HeaderOverride} {name : String}
    (h : parseHeaderName overrideHdr.name ≠ some name) (headers : HeaderMap) :
    (applyOverride headers overrideHdr).getAll name = headers.getAll name := by
  unfold applyOverride
  cases hname : parseHeaderName overrideHdr.name with
  | none => rfl
  | some other =>
    have hne : name ≠ other := fun heq => h (by rw [hname, heq])
    exact getAll_insertText_of_ne hne headers overrideHdr.value

theorem getAll_applyOverrides {config : ProxyHeadersConfig} {name : String}
    (h : config.Leaves name) (headers : HeaderMap) :
    (config.set.foldl applyOverride headers).getAll name = headers.getAll name := by
  have hlist : ∀ set : List HeaderOverride,
      (∀ overrideHdr ∈ set, parseHeaderName overrideHdr.name ≠ some name) →
      ∀ headers : HeaderMap,
        (set.foldl applyOverride headers).getAll name = headers.getAll name := by
    intro set
    induction set with
    | nil => exact fun _ _ => rfl
    | cons overrideHdr rest ih =>
      intro hset headers
      obtain ⟨hfirst, hrest⟩ := List.forall_mem_cons.mp hset
      rw [List.foldl_cons, ih hrest, getAll_applyOverride_of_ne hfirst]
  exact hlist config.set h headers

/-- The value that the last line of `set` for a header gives it. -/
def ProxyHeadersConfig.written (config : ProxyHeadersConfig) (name : String) : Option HeaderValue :=
  (config.set.filterMap fun overrideHdr =>
    if parseHeaderName overrideHdr.name = some name then HeaderValue.ofChars overrideHdr.value
    else none).getLast?

theorem getAll_applyOverrides_of_written {config : ProxyHeadersConfig} {name : String}
    {value : HeaderValue} (h : config.written name = some value) (headers : HeaderMap) :
    (config.set.foldl applyOverride headers).getAll name = [value] := by
  unfold ProxyHeadersConfig.written at h
  revert h
  induction config.set using List.reverseRecOn with
  | nil => exact fun h => nomatch h
  | append_singleton set overrideHdr ih =>
    intro h
    rw [List.filterMap_append, List.filterMap_cons, List.filterMap_nil] at h
    rw [List.foldl_append, List.foldl_cons, List.foldl_nil]
    by_cases hname : parseHeaderName overrideHdr.name = some name
    · rw [if_pos hname] at h
      unfold applyOverride insertText
      rw [hname, Option.elim_some]
      cases hvalue : HeaderValue.ofChars overrideHdr.value with
      | none =>
        -- a value that cannot be parsed changes nothing
        simp only [hvalue, List.append_nil] at h
        exact ih h
      | some parsed =>
        simp only [hvalue, List.getLast?_concat, Option.some.injEq] at h
        rw [Option.elim_some, getAll_insert, if_pos rfl, h]
    · simp only [if_neg hname, List.append_nil] at h
      rw [getAll_applyOverride_of_ne hname, ih h]

/-- What the backend gets of a header that the proxy does not write itself. -/
theorem getAll_buildForwardHeaders {config : ProxyHeadersConfig} {name : String}
    (hset : config.Leaves name) (hxff : name ≠ "x-forwarded-for") (hreal : name ≠ "x-real-ip")
    (hproto : name ≠ "x-forwarded-proto") (clientIp : IpAddr) (headers : HeaderMap)
    (protocol : ForwardedProtocol) :
    (buildForwardHeaders clientIp headers config protocol).getAll name =
      if config.sendsOn name then (headers.getAll name).getLast?.toList else [] := by
  unfold buildForwardHeaders
  rw [getAll_applyOverrides hset, getAll_insertText_of_ne hproto, getAll_insertText_of_ne hreal,
    getAll_insertText_of_ne hxff, getAll_keepHeaders]

/-! ## Section 3: The chain of addresses -/

/-- What `to_str` accepts. -/
def VisibleText (s : Str) : Prop := ∀ c ∈ s, (32 ≤ c.toNat ∧ c.toNat < 127) ∨ c.toNat = 9

theorem visibleText_intercalate {l : List Str} (h : ∀ entry ∈ l, VisibleText entry) :
    VisibleText (", ".toList.intercalate l) := by
  intro c hc
  rcases mem_intercalate hc with hc | ⟨entry, hentry, hc⟩
  · left
    rcases (by simpa using hc : c = ',' ∨ c = ' ') with rfl | rfl <;> decide
  · exact h entry hentry c hc

/-- A visible text is a value, which is read as this text. -/
theorem VisibleText.ofChars {s : Str} (h : VisibleText s) :
    ∃ value, HeaderValue.ofChars s = some value ∧ value.toStr = some s := by
  have hascii : ∀ c ∈ s, c.toNat < 0x80 := by
    intro c hc
    have := h c hc
    omega
  have hbytes := utf8_of_ascii hascii
  have hvisible : (utf8 s).all HeaderValue.isVisibleAscii = true := by
    rw [hbytes, List.all_map, List.all_eq_true]
    intro c hc
    have hrange := h c hc
    have hcode := toNat_ofNat_lt (show c.toNat < 256 by omega)
    simp only [HeaderValue.isVisibleAscii, Function.comp_apply, Bool.or_eq_true, Bool.and_eq_true,
      decide_eq_true_eq, UInt8.le_iff_toNat_le, UInt8.lt_iff_toNat_lt, ← UInt8.toNat_inj, hcode,
      UInt8.reduceToNat]
    omega
  have hvalid : (utf8 s).all isValueByte = true := by
    refine List.all_eq_true.mpr fun b hb => ?_
    have := List.all_eq_true.mp hvisible b hb
    simp only [HeaderValue.isVisibleAscii, isValueByte, Bool.or_eq_true, Bool.and_eq_true,
      decide_eq_true_eq, UInt8.le_iff_toNat_le, UInt8.lt_iff_toNat_lt, ← UInt8.toNat_inj, ne_eq,
      UInt8.reduceToNat] at this ⊢
    omega
  refine ⟨⟨utf8 s, hvalid⟩, ?_, ?_⟩
  · unfold HeaderValue.ofChars
    rw [dif_pos hvalid]
  · unfold HeaderValue.toStr HeaderValue.chars
    rw [if_pos hvisible]
    congr 1
    show (utf8 s).map _ = s
    rw [hbytes, List.map_map]
    conv_rhs => rw [← List.map_id s]
    apply List.map_congr_left
    intro c hc
    have hcode := toNat_ofNat_lt (show c.toNat < 256 by have := hascii c hc; omega)
    show Char.ofNat (UInt8.ofNat c.toNat).toNat = c
    rw [hcode, Char.ofNat_toNat]

theorem visibleText_of_toStr {value : HeaderValue} {s : Str} (h : value.toStr = some s) :
    VisibleText s := by
  unfold HeaderValue.toStr at h
  split at h
  · next hvisible =>
    obtain rfl := Option.some.inj h
    intro c hc
    obtain ⟨b, hb, rfl⟩ := List.mem_map.mp hc
    have hrange := List.all_eq_true.mp hvisible b hb
    simp only [HeaderValue.isVisibleAscii, Bool.or_eq_true, Bool.and_eq_true, decide_eq_true_eq,
      UInt8.le_iff_toNat_le, UInt8.lt_iff_toNat_lt, ← UInt8.toNat_inj, UInt8.reduceToNat] at hrange
    rw [toNat_ofNat_byte]
    omega
  · cases h

/-- A text that stands between the commas of a header as it is. -/
structure PlainEntry (entry : Str) : Prop where
  noComma : ',' ∉ entry
  trimmed : trim entry = entry
  visible : VisibleText entry

theorem plainEntry_display (ip : IpAddr) : PlainEntry ip.display where
  noComma hmem := absurd (isAddressChar_display hmem) (by decide)
  trimmed := by
    apply trim_of_none
    intro c hc
    rcases isAddressChar_cases (isAddressChar_display hc) with h | rfl | rfl
    · exact isWhitespace_of_hexDigit h
    · decide
    · decide
  visible c hc := by
    left
    rcases isAddressChar_cases (isAddressChar_display hc) with h | rfl | rfl
    · have := toNat_of_hexDigit h
      omega
    · decide
    · decide

theorem plainEntry_of_mem_xffAddresses {existing entry : Str} (h : entry ∈ xffAddresses existing)
    (hvisible : VisibleText existing) : PlainEntry entry := by
  obtain ⟨hmem, -⟩ := List.mem_filter.mp h
  obtain ⟨part, hpart, rfl⟩ := List.mem_map.mp hmem
  have hsub : ∀ c ∈ trim part, c ∈ part := by
    intro c hc
    obtain ⟨lead, trail, -, -, heq⟩ := exists_trim part
    rw [heq]
    simp [hc]
  refine ⟨fun hcomma => notMem_of_mem_splitOn hpart (hsub _ hcomma), trim_trim part, ?_⟩
  exact fun c hc => hvisible c (mem_of_mem_splitOn hpart (hsub c hc))

/-- Entries with `, ` between them are read back. -/
theorem entries_intercalate {l : List Str} (hne : l ≠ []) (h : ∀ entry ∈ l, PlainEntry entry) :
    RequestSanitizer.entries (", ".toList.intercalate l) = l := by
  -- after the first one there is a blank before each entry
  cases l with
  | nil => exact absurd rfl hne
  | cons first rest =>
    have hjoin : ∀ (first : Str) (rest : List Str), ", ".toList.intercalate (first :: rest) =
        [','].intercalate (first :: rest.map fun entry => ' ' :: entry) := by
      intro first rest
      induction rest generalizing first with
      | nil => simp
      | cons next rest ih =>
        rw [List.intercalate_cons_cons, ih, List.map_cons, List.intercalate_cons_cons]
        cases rest with
        | nil => simp
        | cons more rest => simp [List.intercalate_cons_cons]
    have hcommas : ∀ part ∈ first :: rest.map (fun entry => ' ' :: entry), ',' ∉ part := by
      intro part hpart
      rcases List.mem_cons.mp hpart with rfl | hpart
      · exact (h _ (by simp)).noComma
      · obtain ⟨entry, hentry, rfl⟩ := List.mem_map.mp hpart
        have := (h entry (by simp [hentry])).noComma
        simpa using this
    unfold RequestSanitizer.entries
    rw [hjoin, List.splitOn_intercalate ',' hcommas (by simp), List.map_cons, List.map_map,
      (h first (by simp)).trimmed]
    congr 1
    conv_rhs => rw [← List.map_id rest]
    apply List.map_congr_left
    intro entry hentry
    have hblank : trim ([' '] ++ entry) = trim entry := by
      apply trim_blanks_append
      intro c hc
      rw [List.mem_singleton.mp hc]
      rfl
    exact hblank.trans (h entry (by simp [hentry])).trimmed

/-- The chain that is written: at most nine addresses of the old one, then the
    client's. -/
theorem validateAndTruncateXff_eq (existing clientIp : Str) :
    ∃ kept, kept <:+ xffAddresses existing ∧ kept.length < maxXffChainLength ∧
      validateAndTruncateXff existing clientIp = ", ".toList.intercalate (kept ++ [clientIp]) := by
  have hjoin : ∀ kept : List Str, (if kept = [] then clientIp
      else ", ".toList.intercalate kept ++ ", ".toList ++ clientIp) =
        ", ".toList.intercalate (kept ++ [clientIp]) := by
    intro kept
    induction kept with
    | nil => simp
    | cons entry rest ih =>
      rw [if_neg (List.cons_ne_nil _ _)]
      cases rest with
      | nil => simp [List.intercalate]
      | cons next rest =>
        rw [if_neg (List.cons_ne_nil _ _)] at ih
        rw [List.intercalate_cons_cons, List.append_assoc, List.append_assoc,
          List.append_assoc] at *
        rw [List.cons_append, List.cons_append, List.intercalate_cons_cons,
          ← List.cons_append, ← ih]
        simp
  unfold validateAndTruncateXff
  simp only [hjoin]
  split
  · next hlong =>
    exact ⟨_, List.drop_suffix _ _,
      by unfold maxXffChainLength at *; rw [List.length_drop]; omega, rfl⟩
  · next hshort => exact ⟨_, List.suffix_refl _, by omega, rfl⟩

/-- `X-Forwarded-For` as the backend gets it. -/
theorem getAll_xff {config : ProxyHeadersConfig} (hset : config.Leaves "x-forwarded-for")
    (clientIp : IpAddr) (headers : HeaderMap) (protocol : ForwardedProtocol) :
    ∃ value text kept,
      (buildForwardHeaders clientIp headers config protocol).getAll "x-forwarded-for" = [value] ∧
      value.toStr = some text ∧ kept.length < maxXffChainLength ∧
      (∀ entry ∈ kept, (IpAddr.parse entry).isSome = true) ∧
      RequestSanitizer.entries text = kept ++ [clientIp.display] := by
  generalize hexisting :
    ((headers.get "x-forwarded-for").bind HeaderValue.toStr).getD [] = existing
  have hvisible : VisibleText existing := by
    cases htext : (headers.get "x-forwarded-for").bind HeaderValue.toStr with
    | none =>
      rw [htext] at hexisting
      subst hexisting
      intro c hc
      cases hc
    | some text =>
      rw [htext] at hexisting
      subst hexisting
      obtain ⟨value, -, hvalue⟩ := Option.bind_eq_some_iff.mp htext
      exact visibleText_of_toStr hvalue
  obtain ⟨kept, hkept, hlength, htext⟩ := validateAndTruncateXff_eq existing clientIp.display
  have hplain : ∀ entry ∈ kept ++ [clientIp.display], PlainEntry entry := by
    intro entry hentry
    rcases List.mem_append.mp hentry with hentry | hentry
    · exact plainEntry_of_mem_xffAddresses (hkept.subset hentry) hvisible
    · rw [List.mem_singleton.mp hentry]
      exact plainEntry_display clientIp
  have htextVisible : VisibleText (validateAndTruncateXff existing clientIp.display) := by
    rw [htext]
    exact visibleText_intercalate fun entry hentry => (hplain entry hentry).visible
  obtain ⟨value, hvalue, hread⟩ := htextVisible.ofChars
  refine ⟨value, _, kept, ?_, hread, hlength, ?_, ?_⟩
  · unfold buildForwardHeaders
    rw [getAll_applyOverrides hset, getAll_insertText_of_ne (by decide),
      getAll_insertText_of_ne (by decide), hexisting]
    unfold insertText
    rw [hvalue]
    exact (getAll_insert _ _ _ _).trans (if_pos rfl)
  · intro entry hentry
    have := (List.mem_filter.mp (hkept.subset hentry)).2
    exact (Bool.and_eq_true _ _ ▸ this).2
  · rw [htext]
    exact entries_intercalate (by simp) hplain

/-! ## Section 4: What a backend gets -/

/-- The lines of a header that the proxy writes by itself are one line. -/
theorem length_getAll_insertText {headers : HeaderMap} {name other : String} {text : Str}
    (h : (headers.getAll other).length ≤ 1) :
    ((insertText headers name text).getAll other).length ≤ 1 := by
  unfold insertText
  cases HeaderValue.ofChars text with
  | none => exact h
  | some value =>
    show ((headers.insert name value).getAll other).length ≤ 1
    rw [getAll_insert]
    split
    · exact Nat.le_refl 1
    · exact h

theorem length_getAll_applyOverrides {headers : HeaderMap} {name : String}
    (h : (headers.getAll name).length ≤ 1) (set : List HeaderOverride) :
    ((set.foldl applyOverride headers).getAll name).length ≤ 1 := by
  induction set generalizing headers with
  | nil => exact h
  | cons overrideHdr rest ih =>
    apply ih
    unfold applyOverride
    cases parseHeaderName overrideHdr.name with
    | none => exact h
    | some other => exact length_getAll_insertText h

theorem length_getAll_keepHeaders (keep : String → Bool) (headers : HeaderMap) (name : String) :
    ((keepHeaders keep headers).getAll name).length ≤ 1 := by
  rw [getAll_keepHeaders]
  split
  · cases (headers.getAll name).getLast? <;> simp
  · exact Nat.zero_le 1

/-- An inserted visible text is the only line of its name, and is read as this text. -/
theorem getAll_insertText_visible {text : Str} (h : VisibleText text) (headers : HeaderMap)
    (name : String) :
    ∃ value, (insertText headers name text).getAll name = [value] ∧ value.toStr = some text := by
  obtain ⟨value, hvalue, hread⟩ := h.ofChars
  refine ⟨value, ?_, hread⟩
  unfold insertText
  rw [hvalue]
  exact (getAll_insert _ _ _ _).trans (if_pos rfl)

/-- Hop-by-hop headers and `Forwarded` are not sent on. -/
theorem getAll_hopByHop {config : ProxyHeadersConfig} {name : String} (hset : config.Leaves name)
    (hname : isHopByHopHeader name = true ∨ name = "forwarded") (clientIp : IpAddr)
    (headers : HeaderMap) (protocol : ForwardedProtocol) :
    (buildForwardHeaders clientIp headers config protocol).getAll name = [] := by
  have hother : ∀ written ∈ ["x-forwarded-for", "x-real-ip", "x-forwarded-proto"],
      isHopByHopHeader written = false ∧ written ≠ "forwarded" := by decide
  have hne : ∀ written ∈ ["x-forwarded-for", "x-real-ip", "x-forwarded-proto"],
      name ≠ written := by
    intro written hwritten heq
    subst heq
    obtain ⟨hhop, hforwarded⟩ := hother name hwritten
    rcases hname with hname | hname
    · rw [hhop] at hname
      cases hname
    · exact hforwarded hname
  have hkept : config.sendsOn name = false := by
    unfold ProxyHeadersConfig.sendsOn
    rcases hname with hname | rfl
    · simp only [hname, Bool.not_true, Bool.false_and]
    · have hwritten : (forwardingHeaders.any fun h =>
          eqIgnoreAsciiCase "forwarded".toList h.toList) = true := by decide
      simp only [hwritten, Bool.not_true, Bool.and_false, Bool.false_and]
  rw [getAll_buildForwardHeaders hset (hne _ (by simp)) (hne _ (by simp)) (hne _ (by simp)), hkept]
  rfl

theorem exists_chain {kept : List Str} (h : ∀ entry ∈ kept, (IpAddr.parse entry).isSome = true) :
    ∃ chain : List IpAddr, kept.map IpAddr.parse = chain.map some := by
  induction kept with
  | nil => exact ⟨[], rfl⟩
  | cons entry rest ih =>
    obtain ⟨hfirst, hrest⟩ := List.forall_mem_cons.mp h
    obtain ⟨ip, hip⟩ := Option.isSome_iff_exists.mp hfirst
    obtain ⟨chain, hchain⟩ := ih hrest
    exact ⟨ip :: chain, by rw [List.map_cons, List.map_cons, hip, hchain]⟩

/-- **The request that is sent on**: no header has two lines. A header that
    `set` writes has the value of its last line there, and apart from these
    * a hop-by-hop header and `Forwarded` are not there;
    * `X-Forwarded-For` is there, with at most nine addresses of the old one
      and the client's address as the last;
    * `X-Real-IP` is the client's address, and `X-Forwarded-Proto` the protocol;
    * any other header is there if the configuration sends it on, with the last
      value that the client gave. -/
theorem forwarded_request (clientIp : IpAddr) (headers : HeaderMap) (config : ProxyHeadersConfig)
    (protocol : ForwardedProtocol) :
    (∀ name, ((buildForwardHeaders clientIp headers config protocol).getAll name).length ≤ 1) ∧
    (∀ name, config.Leaves name → (isHopByHopHeader name = true ∨ name = "forwarded") →
      (buildForwardHeaders clientIp headers config protocol).getAll name = []) ∧
    (config.Leaves "x-forwarded-for" →
      ∃ value text chain,
        (buildForwardHeaders clientIp headers config protocol).getAll "x-forwarded-for" = [value] ∧
        value.toStr = some text ∧ chain.length < maxXffChainLength ∧
        (RequestSanitizer.entries text).map IpAddr.parse = (chain ++ [clientIp]).map some) ∧
    (config.Leaves "x-real-ip" →
      ∃ value, (buildForwardHeaders clientIp headers config protocol).getAll "x-real-ip" = [value] ∧
        value.toStr = some clientIp.display) ∧
    (config.Leaves "x-forwarded-proto" →
      ∃ value,
        (buildForwardHeaders clientIp headers config protocol).getAll
          "x-forwarded-proto" = [value] ∧
        value.toStr = some protocol.asStr) ∧
    (∀ name value, config.written name = some value →
      (buildForwardHeaders clientIp headers config protocol).getAll name = [value]) ∧
    ∀ name, config.Leaves name → name ∉ forwardingHeaders →
      (buildForwardHeaders clientIp headers config protocol).getAll name =
        if config.sendsOn name then (headers.getAll name).getLast?.toList else [] := by
  refine ⟨?_, ?_, ?_, ?_, ?_, ?_, ?_⟩
  · intro name
    unfold buildForwardHeaders
    apply length_getAll_applyOverrides
    apply length_getAll_insertText
    apply length_getAll_insertText
    apply length_getAll_insertText
    exact length_getAll_keepHeaders _ _ _
  · intro name hset hname
    exact getAll_hopByHop hset hname clientIp headers protocol
  · intro hset
    obtain ⟨value, text, kept, hall, htext, hlength, hparse, hentries⟩ :=
      getAll_xff hset clientIp headers protocol
    -- the entries that are kept are addresses, and the last one is the client's
    obtain ⟨chain, hchain⟩ := exists_chain hparse
    refine ⟨value, text, chain, hall, htext, ?_, ?_⟩
    · have := congrArg List.length hchain
      rw [List.length_map, List.length_map] at this
      omega
    · rw [hentries, List.map_append, hchain, List.map_append]
      simp [parse_display]
  · intro hset
    unfold buildForwardHeaders
    rw [getAll_applyOverrides hset, getAll_insertText_of_ne (by decide)]
    exact getAll_insertText_visible (plainEntry_display clientIp).visible _ _
  · intro hset
    have hvisible : VisibleText protocol.asStr := by
      cases protocol <;> simp [VisibleText, ForwardedProtocol.asStr]
    unfold buildForwardHeaders
    rw [getAll_applyOverrides hset]
    exact getAll_insertText_visible hvisible _ _
  · intro name value hwritten
    exact getAll_applyOverrides_of_written hwritten _
  · intro name hset hname
    unfold forwardingHeaders at hname
    simp only [List.mem_cons, List.not_mem_nil, or_false, not_or] at hname
    exact getAll_buildForwardHeaders hset hname.1 hname.2.1 hname.2.2.2 clientIp headers protocol

/-! ## Section 5: What a client gets -/

/-- The values of a header in a list of names and texts. -/
def textsOf (lines : List (String × Str)) (name : String) : List Str :=
  (lines.filter fun line => line.1 = name).map Prod.snd

/-- Whether the filters leave a header out. -/
def filtersOut (toFilter : List String) (name : String) : Bool :=
  isHopByHopHeaderName name || toFilter.contains name

theorem textsOf_filterResponseHeaders (headers : HeaderMap) (headersToFilter : List Str)
    (name : String) :
    textsOf (filterResponseHeaders headers headersToFilter) name =
      if filtersOut (headerNames headersToFilter) name then []
      else (headers.getAll name).filterMap HeaderValue.toStr := by
  unfold textsOf filterResponseHeaders HeaderMap.getAll
  generalize headerNames headersToFilter = toFilter
  simp only
  rw [List.filter_filterMap, List.map_filterMap, List.filterMap_filter, List.filterMap_map,
    List.filterMap_filter]
  -- both sides walk over the lines of the map
  cases hout : filtersOut toFilter name with
  | true =>
    rw [if_pos rfl, List.filterMap_eq_nil_iff]
    intro line _
    by_cases hline : line.1 = name
    · have hkeep : (!toFilter.contains line.1 && !isHopByHopHeaderName line.1) = false := by
        rw [← Bool.not_or, Bool.or_comm, hline]
        exact congrArg not hout
      rw [hkeep]
      rfl
    · cases line.2.toStr <;> simp [hline]
  | false =>
    rw [if_neg Bool.false_ne_true]
    apply List.filterMap_congr
    intro line _
    by_cases hline : line.1 = name
    · have hkeep : (!toFilter.contains line.1 && !isHopByHopHeaderName line.1) = true := by
        rw [← Bool.not_or, Bool.or_comm, hline]
        exact congrArg not hout
      rw [hkeep]
      cases hread : line.2.toStr <;> simp [hline, hread]
    · cases line.2.toStr <;> simp [hline]

theorem getAll_filterResponseHeadersBuf (headers : HeaderMap) (toFilter : List String)
    (name : String) :
    (filterResponseHeadersBuf headers toFilter).getAll name =
      if filtersOut toFilter name then [] else (headers.getAll name).getLast?.toList := by
  unfold filterResponseHeadersBuf
  rw [getAll_keepHeaders]
  show (if (!filtersOut toFilter name) = true then _ else _) = _
  cases filtersOut toFilter name <;> rfl

/-- **The two filters of a response**: both leave out the hop-by-hop headers and
    those of the configuration. Of a header that goes through,
    `filter_response_headers` keeps every line that is text and
    `filter_response_headers_buf` the last line alone, so that both give the
    same texts exactly if no other line is text. -/
theorem response_filters (headers : HeaderMap) (name : String) :
    (∀ toFilter, (filterResponseHeadersBuf headers toFilter).getAll name =
      if filtersOut toFilter name then [] else (headers.getAll name).getLast?.toList) ∧
    ∀ headersToFilter, textsOf (filterResponseHeaders headers headersToFilter) name =
        ((filterResponseHeadersBuf headers (headerNames headersToFilter)).getAll name).filterMap
          HeaderValue.toStr ↔
      filtersOut (headerNames headersToFilter) name = true ∨
        ∀ value ∈ (headers.getAll name).dropLast, value.toStr = none := by
  refine ⟨fun toFilter => getAll_filterResponseHeadersBuf headers toFilter name, ?_⟩
  intro headersToFilter
  rw [textsOf_filterResponseHeaders, getAll_filterResponseHeadersBuf]
  cases filtersOut (headerNames headersToFilter) name with
  | true => simp
  | false =>
    simp only [Bool.false_eq_true, if_false, false_or]
    generalize headers.getAll name = values
    induction values using List.reverseRecOn with
    | nil => simp
    | append_singleton values last _ =>
      -- the last line counts on both sides
      rw [List.filterMap_append, List.dropLast_concat, List.getLast?_concat, Option.toList_some,
        List.append_left_eq_self, List.filterMap_eq_nil_iff]

/-- **The configured changes of a response**: no header has two lines, and of a
    header that `set` does not write the last line is kept, unless a pattern of
    `clear` or `hide` matches it. -/
theorem response_transforms (headers : HeaderMap) (config : ProxyHeadersConfig)
    (hconfig : config.clear ≠ [] ∨ config.set ≠ [] ∨ config.hide ≠ []) :
    (∀ name, ((applyResponseHeaderTransforms headers config).getAll name).length ≤ 1) ∧
    ∀ name, config.Leaves name →
      (applyResponseHeaderTransforms headers config).getAll name =
        if config.shouldRemove name then [] else (headers.getAll name).getLast?.toList := by
  have heq : applyResponseHeaderTransforms headers config =
      config.set.foldl applyOverride
        (keepHeaders (fun name => !config.shouldRemove name) headers) := by
    unfold applyResponseHeaderTransforms
    apply if_neg
    simp only [Bool.and_eq_true, List.isEmpty_iff]
    tauto
  rw [heq]
  constructor
  · intro name
    exact length_getAll_applyOverrides (length_getAll_keepHeaders _ _ _) config.set
  · intro name hset
    rw [getAll_applyOverrides hset, getAll_keepHeaders]
    cases config.shouldRemove name <;> rfl

theorem response_transforms_hidden :
    (applyResponseHeaderTransforms
        (HeaderMap.ofLines [("x-debug-id", "7"), ("set-cookie", "a"), ("set-cookie", "b")])
        ⟨[], [], [], ["X-Debug*".toList]⟩).getAll "set-cookie" =
      if ProxyHeadersConfig.shouldRemove ⟨[], [], [], ["X-Debug*".toList]⟩ "set-cookie" then []
      else ((HeaderMap.ofLines [("x-debug-id", "7"), ("set-cookie", "a"),
        ("set-cookie", "b")]).getAll "set-cookie").getLast?.toList :=
  (response_transforms _ ⟨[], [], [], ["X-Debug*".toList]⟩ (by simp)).2 "set-cookie" (by
    intro overrideHdr h
    cases h)

/-! ## Section 6: Chains of proxies -/

/-- A proxy: the address under which it connects to the next one, and its
    configuration. -/
structure Hop where
  address : IpAddr
  trustedProxies : List Str
  headers : ProxyHeadersConfig
  protocol : ForwardedProtocol

/-- The address that the proxy takes for the client's, and the headers that it
    sends on. -/
def Hop.handle (hop : Hop) (headers : HeaderMap) (peer : IpAddr) : IpAddr × HeaderMap :=
  let (clientIp, headers) := sanitizeAndResolveClientIp headers hop.trustedProxies peer
  (clientIp, buildForwardHeaders clientIp headers hop.headers hop.protocol)

/-- The addresses that the proxies of a chain take for the client's. -/
def resolvedAlong : List Hop → HeaderMap → IpAddr → List IpAddr
  | [], _, _ => []
  | hop :: rest, headers, peer =>
      (hop.handle headers peer).1 :: resolvedAlong rest (hop.handle headers peer).2 hop.address

def Hop.Trusts (hop : Hop) (ip : IpAddr) : Prop :=
  (RequestSanitizer.newFromSlice hop.trustedProxies true).isTrustedProxy ip = true

instance (hop : Hop) (ip : IpAddr) : Decidable (hop.Trusts ip) :=
  inferInstanceAs (Decidable (_ = true))

/-- The proxy writes `X-Forwarded-For` itself and does not trust the client. -/
structure Hop.Honest (hop : Hop) (client : IpAddr) : Prop where
  leaves : hop.headers.Leaves "x-forwarded-for"
  distrusts : ¬ hop.Trusts client

/-- Each proxy trusts the one before it. -/
def TrustedChain (client : IpAddr) : IpAddr → List Hop → Prop
  | _, [] => True
  | peer, hop :: rest =>
      hop.Trusts peer ∧ hop.Honest client ∧ TrustedChain client hop.address rest

/-- `X-Forwarded-For` is one line that ends with the client's address. -/
def EndsWithClient (client : IpAddr) (headers : HeaderMap) : Prop :=
  ∃ value text kept, headers.getAll "x-forwarded-for" = [value] ∧ value.toStr = some text ∧
    RequestSanitizer.entries text = kept ++ [client.display]

/-- One proxy of the chain. -/
theorem Hop.Honest.handle {hop : Hop} {client : IpAddr} (h : hop.Honest client)
    {headers : HeaderMap} {peer : IpAddr} (hresolved : (hop.handle headers peer).1 = client) :
    EndsWithClient client (hop.handle headers peer).2 := by
  obtain ⟨value, text, kept, hall, htext, -, -, hentries⟩ := getAll_xff h.leaves
    (hop.handle headers peer).1 (sanitizeAndResolveClientIp headers hop.trustedProxies peer).2
    hop.protocol
  rw [hresolved] at hentries
  exact ⟨value, text, kept, hall, htext, hentries⟩

/-- Behind a proxy that it trusts, a proxy finds the address at the end. -/
theorem Hop.resolve_endsWithClient {hop : Hop} {client peer : IpAddr} {headers : HeaderMap}
    (hpublic : isRestrictedIp client = false) (hpeer : hop.Trusts peer)
    (hclient : ¬ hop.Trusts client) (h : EndsWithClient client headers) :
    (hop.handle headers peer).1 = client := by
  obtain ⟨value, text, kept, hall, htext, hentries⟩ := h
  have hplain : PlainXff headers := by
    refine ⟨by rw [hall]; exact Nat.le_refl 1, ?_⟩
    intro other hother
    rw [hall, List.mem_singleton] at hother
    rw [hother, htext]
    rfl
  have hfound : (RequestSanitizer.newFromSlice hop.trustedProxies true).findClientIpInXff
      (xffEntries headers) = some client := by
    have hlist : xffEntries headers = kept ++ [client.display] := by
      unfold xffEntries
      rw [hall, List.flatMap_singleton, HeaderValue.chars_of_toStr htext, hentries]
    unfold RequestSanitizer.findClientIpInXff
    rw [hlist, List.reverse_append, List.reverse_singleton, List.singleton_append]
    unfold RequestSanitizer.findFrom
    unfold Hop.Trusts at hclient
    simp [parse_display, hclient, hpublic]
  show (sanitizeAndResolveClientIp headers hop.trustedProxies peer).1 = client
  rw [resolve_trusted hpeer hplain, hfound]
  rfl

theorem resolvedAlong_trustedChain {client : IpAddr} (hpublic : isRestrictedIp client = false)
    (hops : List Hop) {peer : IpAddr} {headers : HeaderMap} (hchain : TrustedChain client peer hops)
    (h : EndsWithClient client headers) : ∀ ip ∈ resolvedAlong hops headers peer, ip = client := by
  induction hops generalizing peer headers with
  | nil =>
    intro ip hip
    cases hip
  | cons hop rest ih =>
    obtain ⟨hpeer, hhonest, hrest⟩ := hchain
    have hresolved := hop.resolve_endsWithClient hpublic hpeer hhonest.distrusts h
    intro ip hip
    rcases List.mem_cons.mp hip with rfl | hip
    · exact hresolved
    · exact ih hrest (hhonest.handle hresolved) ip hip

/-- **The client's address goes through a chain of proxies**: whatever headers
    the client sends, every proxy of the chain takes the address of the client
    for the client's. -/
theorem client_ip_through_chain (client : IpAddr) (headers : HeaderMap) (first : Hop)
    (rest : List Hop) (hpublic : isRestrictedIp client = false) (hfirst : first.Honest client)
    (hrest : TrustedChain client first.address rest) :
    ∀ ip ∈ resolvedAlong (first :: rest) headers client, ip = client := by
  have hresolved : (first.handle headers client).1 = client :=
    resolve_untrusted headers first.trustedProxies (Bool.eq_false_iff.mpr hfirst.distrusts)
  intro ip hip
  rcases List.mem_cons.mp hip with rfl | hip
  · exact hresolved
  · exact resolvedAlong_trustedChain hpublic rest hrest (hfirst.handle hresolved) ip hip

theorem client_ip_through_chain_two :
    (resolvedAlong
        [⟨.v4 ⟨[10, 0, 0, 1], rfl⟩, [], ⟨[], [], [], []⟩, .https⟩,
          ⟨.v4 ⟨[10, 0, 0, 2], rfl⟩, ["10.0.0.1".toList], ⟨[], [], [], []⟩, .http⟩]
        (HeaderMap.ofLines [("x-forwarded-for", "1.2.3.4")]) (.v4 ⟨[93, 184, 216, 34], rfl⟩)).all
      (fun ip => ip = .v4 ⟨[93, 184, 216, 34], rfl⟩) = true := by
  have hall := client_ip_through_chain (.v4 ⟨[93, 184, 216, 34], rfl⟩)
    (HeaderMap.ofLines [("x-forwarded-for", "1.2.3.4")])
    ⟨.v4 ⟨[10, 0, 0, 1], rfl⟩, [], ⟨[], [], [], []⟩, .https⟩
    [⟨.v4 ⟨[10, 0, 0, 2], rfl⟩, ["10.0.0.1".toList], ⟨[], [], [], []⟩, .http⟩] (by decide)
    ⟨by decide, by decide⟩ ⟨by decide, ⟨by decide, by decide⟩, trivial⟩
  rw [List.all_eq_true]
  intro ip hip
  exact decide_eq_true (hall ip hip)

end Synvoid.Proxy
