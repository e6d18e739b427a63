import Synvoid.Framework.IpAddr
import Synvoid.Http.HeaderMap

/-! # The address of the client

    Model of `RequestSanitizer` (`synvoid-waf/src/request_sanitization.rs`), of
    the address ranges it uses (`synvoid-core/src/net.rs`) and of
    `sanitize_and_resolve_client_ip` (`synvoid-http/src/request_parse.rs`).

    Behind a trusted proxy the entries of `X-Forwarded-For` are read from the
    right. Trusted proxies are passed over, and to the left of one so are
    restricted addresses; the next entry decides, and nothing to the left of it
    is read (`findFrom_decisive`). Two things are left open by
    `client_ip_not_spoofable`: only the first of several header lines is read,
    and none if it is not text.
-/

namespace Synvoid.Http

open Synvoid.Framework

/-! ### Address ranges -/

abbrev Ipv4Octets := { octets : Bytes // octets.length = 4 }

abbrev Ipv6Octets := { octets : Bytes // octets.length = 16 }

def ipv4PrefixMask (prefixLen : Nat) : UInt32 :=
  if prefixLen = 0 then 0
  else if prefixLen ≤ 31 then 0xFFFFFFFF <<< UInt32.ofNat (32 - prefixLen)
  else 0xFFFFFFFF

def isRestrictedIpv4 (octets : Bytes) : Bool :=
  let a := byteAt octets 0
  let b := byteAt octets 1
  a == 0 || a == 10 || (a == 100 && 64 ≤ b && b ≤ 127) || a == 127 || (a == 169 && b == 254) ||
    (a == 172 && 16 ≤ b && b ≤ 31) || (a == 192 && (b == 0 || b == 168)) ||
    (a == 198 && ((18 ≤ b && b ≤ 19) || b == 51)) || (a == 203 && b == 0) || 224 ≤ a

/-- `::ffff:0:0/96`, the mapped IPv4 addresses. -/
def mappedPrefix : Bytes := List.replicate 10 0 ++ [0xFF, 0xFF]

def isRestrictedIp : IpAddr → Bool
  | .v4 octets => isRestrictedIpv4 octets.1
  | .v6 octets =>
      if octets.1.take 12 = mappedPrefix then isRestrictedIpv4 (octets.1.drop 12)
      else
        let first := u16At octets.1 0
        octets.1 == List.replicate 16 0 || octets.1 == List.replicate 15 0 ++ [1] ||
          first &&& 0xFE00 == 0xFC00 || first &&& 0xFFC0 == 0xFE80 || first &&& 0xFF00 == 0xFF00 ||
          (first == 0x2001 && u16At octets.1 2 == 0x0DB8)

/-! ### Trusted proxies -/

inductive TrustedProxy where
  | ipv4 (net : Ipv4Octets) (prefixLen : Fin 33)
  | ipv6 (net : Ipv6Octets) (prefixLen : Fin 129)

def TrustedProxy.contains : TrustedProxy → IpAddr → Bool
  | .ipv4 net prefixLen, .v4 ip =>
      let mask := ipv4PrefixMask prefixLen
      u32At net.1 0 &&& mask == u32At ip.1 0 &&& mask
  | .ipv6 net prefixLen, .v6 ip =>
      let prefixBytes := prefixLen.1 / 8
      let prefixBits := prefixLen.1 % 8
      if net.1.take prefixBytes ≠ ip.1.take prefixBytes then false
      else if prefixBits > 0 then
        let mask := ~~~((0xFF : UInt8) >>> UInt8.ofNat prefixBits)
        byteAt net.1 prefixBytes &&& mask == byteAt ip.1 prefixBytes &&& mask
      else true
  | _, _ => false

/-- A network of an address and a length that fits it. -/
def TrustedProxy.ofIp (ip : IpAddr) (prefixLen : Nat) : Option TrustedProxy :=
  match ip with
  | .v4 octets => if h : prefixLen < 33 then some (.ipv4 octets ⟨prefixLen, h⟩) else none
  | .v6 octets => if h : prefixLen < 129 then some (.ipv6 octets ⟨prefixLen, h⟩) else none

def parseProxy (proxy : Str) : Option TrustedProxy :=
  match splitOnce '/' proxy with
  | some (ip, prefixLen) => do
      let prefixLen ← parseU8 prefixLen
      let ip ← IpAddr.parse ip
      TrustedProxy.ofIp ip prefixLen.toNat
  | none =>
      match IpAddr.parse proxy with
      | some (.v4 octets) => some (.ipv4 octets 32)
      | some (.v6 octets) => some (.ipv6 octets 128)
      | none => none

structure RequestSanitizer where
  trustedProxies : List TrustedProxy
  sanitizeForwarded : Bool

namespace RequestSanitizer

def newFromSlice (trustedProxies : List Str) (sanitizeForwarded : Bool) : RequestSanitizer where
  trustedProxies := trustedProxies.filterMap parseProxy
  sanitizeForwarded := sanitizeForwarded

variable (sanitizer : RequestSanitizer)

def isTrustedProxy (ip : IpAddr) : Bool := sanitizer.trustedProxies.any fun p => p.contains ip

/-! ### Headers -/

/-- The headers that only a trusted proxy may set. -/
def forwardedHeaders : List String :=
  ["x-forwarded-for", "x-forwarded-proto", "x-forwarded-host", "x-forwarded-port", "forwarded",
    "proxy-authorization"]

def sanitizeRequestHeaders (headers : HeaderMap) (clientIp : IpAddr) : HeaderMap :=
  if sanitizer.sanitizeForwarded && !sanitizer.isTrustedProxy clientIp then
    forwardedHeaders.foldl HeaderMap.remove headers
  else headers

/-- The loop of `find_client_ip_in_xff` over the entries, the last one first. -/
def findFrom (foundTrusted : Bool) : List Str → Option IpAddr
  | [] => none
  | entry :: rest =>
      match IpAddr.parse entry with
      | none => none
      | some ip =>
          if sanitizer.isTrustedProxy ip then findFrom true rest
          else if foundTrusted then
            if isRestrictedIp ip then findFrom foundTrusted rest else some ip
          else if isRestrictedIp ip then none
          else some ip

def findClientIpInXff (ips : List Str) : Option IpAddr := sanitizer.findFrom false ips.reverse

/-- The entries of one header line. -/
def entries (value : Str) : List Str := (value.splitOn ',').map trim

def xffAddress (headers : HeaderMap) : Option IpAddr := do
  let forwardedFor ← headers.get "x-forwarded-for"
  let value ← forwardedFor.toStr
  sanitizer.findClientIpInXff (entries value)

/-- A public address in a `for=` part of the `Forwarded` header. -/
def forwardedPart (part : Str) : Option IpAddr := do
  let (key, val) ← splitOnce '=' part
  if eqIgnoreAsciiCase (trim key) "for".toList then
    let ip ← IpAddr.parse (trimMatches '"' (trim val))
    if isRestrictedIp ip then none else some ip
  else none

def forwardedAddress (headers : HeaderMap) : Option IpAddr := do
  let forwarded ← headers.get "forwarded"
  let value ← forwarded.toStr
  (value.splitOn ';').findSome? forwardedPart

def getRealIp (headers : HeaderMap) (clientIp : IpAddr) : Option IpAddr :=
  if sanitizer.sanitizeForwarded && sanitizer.isTrustedProxy clientIp then
    ((sanitizer.xffAddress headers).orElse fun _ => forwardedAddress headers).orElse fun _ =>
      some clientIp
  else some clientIp

end RequestSanitizer

/-- `sanitize_and_resolve_client_ip`, with the headers behind it. -/
def sanitizeAndResolveClientIp (headers : HeaderMap) (trustedProxies : List Str)
    (clientIp : IpAddr) : IpAddr × HeaderMap :=
  let sanitizer := RequestSanitizer.newFromSlice trustedProxies true
  let headers := sanitizer.sanitizeRequestHeaders headers clientIp
  ((sanitizer.getRealIp headers clientIp).getD clientIp, headers)

/-! ### The entries that decide -/

/-- All entries of the header, over all its lines. -/
def xffEntries (headers : HeaderMap) : List Str :=
  (headers.getAll "x-forwarded-for").flatMap fun value => RequestSanitizer.entries value.chars

/-- The header is there at most once, and as text. -/
structure PlainXff (headers : HeaderMap) : Prop where
  once : (headers.getAll "x-forwarded-for").length ≤ 1
  text : ∀ value ∈ headers.getAll "x-forwarded-for", value.toStr.isSome = true

namespace RequestSanitizer

variable (sanitizer : RequestSanitizer)

/-- An entry that is the address of a trusted proxy. -/
def isTrustedEntry (entry : Str) : Bool :=
  ((IpAddr.parse entry).map sanitizer.isTrustedProxy).getD false

/-- The entries from the end to the first one that is not a trusted proxy's
    address. -/
def untrustedTail : List Str → List Str
  | [] => []
  | entry :: rest => entry :: if sanitizer.isTrustedEntry entry then untrustedTail rest else []

/-- The entries from the end to the first one that is neither a trusted proxy's
    address nor a restricted one to the left of such an address. -/
def decisive (foundTrusted : Bool) : List Str → List Str
  | [] => []
  | entry :: rest =>
      entry ::
        match IpAddr.parse entry with
        | none => []
        | some ip =>
            if sanitizer.isTrustedProxy ip then decisive true rest
            else if foundTrusted && isRestrictedIp ip then decisive foundTrusted rest
            else []

/-- Nothing to the left of the decisive entries is read. -/
theorem findFrom_decisive (foundTrusted : Bool) (l : List Str) :
    sanitizer.findFrom foundTrusted (sanitizer.decisive foundTrusted l) =
      sanitizer.findFrom foundTrusted l := by
  induction l generalizing foundTrusted with
  | nil => rfl
  | cons entry rest ih =>
    unfold decisive findFrom
    cases hparse : IpAddr.parse entry with
    | none => rfl
    | some ip =>
      simp only
      by_cases htrusted : sanitizer.isTrustedProxy ip = true
      · simp only [htrusted, if_true]
        exact ih true
      · simp only [htrusted, Bool.false_eq_true, if_false]
        cases foundTrusted with
        | false => rfl
        | true =>
          simp only [Bool.true_and, if_true]
          split
          · exact ih true
          · rfl

/-- A plain header is its entries. -/
theorem xffAddress_eq {headers : HeaderMap} (h : PlainXff headers) :
    sanitizer.xffAddress headers = sanitizer.findClientIpInXff (xffEntries headers) := by
  unfold xffAddress xffEntries HeaderMap.get
  have hlines := h.once
  have htext := h.text
  cases hall : headers.getAll "x-forwarded-for" with
  | nil => rfl
  | cons value rest =>
    rw [hall] at hlines htext
    obtain rfl : rest = [] := List.length_eq_zero_iff.mp (by simpa using hlines)
    obtain ⟨text, htoStr⟩ := Option.isSome_iff_exists.mp (htext value (by simp))
    simp [htoStr, HeaderValue.chars_of_toStr htoStr]

end RequestSanitizer

/-! ### Resolution -/

/-- From an untrusted peer: its own address. -/
theorem resolve_untrusted (headers : HeaderMap) (trustedProxies : List Str) {clientIp : IpAddr}
    (h : (RequestSanitizer.newFromSlice trustedProxies true).isTrustedProxy clientIp = false) :
    (sanitizeAndResolveClientIp headers trustedProxies clientIp).1 = clientIp := by
  unfold sanitizeAndResolveClientIp RequestSanitizer.getRealIp
  simp [h]

/-- From a trusted peer: the entries of the header, then the `Forwarded` header,
    then its own address. -/
theorem resolve_trusted {headers : HeaderMap} {trustedProxies : List Str} {clientIp : IpAddr}
    (h : (RequestSanitizer.newFromSlice trustedProxies true).isTrustedProxy clientIp = true)
    (hplain : PlainXff headers) :
    (sanitizeAndResolveClientIp headers trustedProxies clientIp).1 =
      ((((RequestSanitizer.newFromSlice trustedProxies true).findClientIpInXff
        (xffEntries headers)).orElse fun _ => RequestSanitizer.forwardedAddress headers).getD
          clientIp) := by
  unfold sanitizeAndResolveClientIp RequestSanitizer.sanitizeRequestHeaders
    RequestSanitizer.getRealIp
  have hsanitize : (RequestSanitizer.newFromSlice trustedProxies true).sanitizeForwarded = true :=
    rfl
  simp only [h, hsanitize, Bool.not_true, Bool.and_false, Bool.false_eq_true, if_false,
    Bool.and_self, if_true]
  rw [RequestSanitizer.xffAddress_eq _ hplain]
  generalize ((RequestSanitizer.newFromSlice trustedProxies true).findClientIpInXff
    (xffEntries headers)).orElse _ = found
  cases found <;> rfl

/-- The address `10.0.0.9`. -/
private def proxyAddress : IpAddr := .v4 ⟨[10, 0, 0, 9], rfl⟩

/-- **The client's address**: from an untrusted peer it is the peer's; from a
    trusted one it depends on the decisive entries of `X-Forwarded-For` alone,
    and on the `Forwarded` header only where they give no address. -/
theorem client_ip_not_spoofable (trustedProxies : List Str) (clientIp : IpAddr) :
    (∀ headers,
      (RequestSanitizer.newFromSlice trustedProxies true).isTrustedProxy clientIp = false →
      (sanitizeAndResolveClientIp headers trustedProxies clientIp).1 = clientIp) ∧
    ∀ headers headers',
      (RequestSanitizer.newFromSlice trustedProxies true).isTrustedProxy clientIp = true →
      PlainXff headers → PlainXff headers' →
      (RequestSanitizer.newFromSlice trustedProxies true).decisive false
          (xffEntries headers).reverse =
        (RequestSanitizer.newFromSlice trustedProxies true).decisive false
          (xffEntries headers').reverse →
      ((RequestSanitizer.newFromSlice trustedProxies true).findClientIpInXff (xffEntries headers) =
        none → headers.get "forwarded" = headers'.get "forwarded") →
      (sanitizeAndResolveClientIp headers trustedProxies clientIp).1 =
        (sanitizeAndResolveClientIp headers' trustedProxies clientIp).1 := by
  refine ⟨fun headers => resolve_untrusted headers trustedProxies, ?_⟩
  intro headers headers' htrusted hplain hplain' hdecisive hforwarded
  rw [resolve_trusted htrusted hplain, resolve_trusted htrusted hplain']
  have hxff : (RequestSanitizer.newFromSlice trustedProxies true).findClientIpInXff
        (xffEntries headers) =
      (RequestSanitizer.newFromSlice trustedProxies true).findClientIpInXff
        (xffEntries headers') := by
    unfold RequestSanitizer.findClientIpInXff
    rw [← RequestSanitizer.findFrom_decisive, hdecisive, RequestSanitizer.findFrom_decisive]
  rw [← hxff]
  cases hfound : (RequestSanitizer.newFromSlice trustedProxies true).findClientIpInXff
      (xffEntries headers) with
  | some ip => rfl
  | none =>
    unfold RequestSanitizer.forwardedAddress
    rw [hforwarded hfound]

/-- Two clients behind two proxies, of which one names another address first. -/
theorem client_ip_not_spoofable_twoProxies :
    (sanitizeAndResolveClientIp (.ofLines [("x-forwarded-for", "1.1.1.1, 8.8.8.8, 10.0.0.2")])
        ["10.0.0.0/8".toList] proxyAddress).1 =
      (sanitizeAndResolveClientIp (.ofLines [("x-forwarded-for", "8.8.8.8,10.0.0.2")])
        ["10.0.0.0/8".toList] proxyAddress).1 ∧
    (sanitizeAndResolveClientIp (.ofLines [("x-forwarded-for", "8.8.8.8,10.0.0.2")])
        ["192.168.1.1".toList] proxyAddress).1 = proxyAddress := by
  refine ⟨?_, ?_⟩
  · refine (client_ip_not_spoofable ["10.0.0.0/8".toList] proxyAddress).2 _ _ (by decide)
      ⟨by decide, by decide⟩ ⟨by decide, by decide⟩ (by decide) ?_
    intro hnone
    exact absurd hnone (by decide)
  · exact (client_ip_not_spoofable ["192.168.1.1".toList] proxyAddress).1 _ (by decide)

/-- Where `X-Forwarded-For` gives no address, the `Forwarded` header does, and to
    the left of a trusted proxy restricted addresses are passed over. -/
theorem entries_beside_xff_are_read :
    ¬ (∀ (trustedProxies : List Str) (clientIp : IpAddr) (headers headers' : HeaderMap),
      (RequestSanitizer.newFromSlice trustedProxies true).isTrustedProxy clientIp = true →
      (RequestSanitizer.newFromSlice trustedProxies true).untrustedTail
          (xffEntries headers).reverse =
        (RequestSanitizer.newFromSlice trustedProxies true).untrustedTail
          (xffEntries headers').reverse →
      (sanitizeAndResolveClientIp headers trustedProxies clientIp).1 =
        (sanitizeAndResolveClientIp headers' trustedProxies clientIp).1) := by
  intro h
  have hsame := h ["10.0.0.0/8".toList] proxyAddress (.ofLines [("forwarded", "for=1.2.3.4")])
    (.ofLines [("forwarded", "for=5.6.7.8")]) (by decide) (by decide)
  exact absurd hsame (by decide)

example : (sanitizeAndResolveClientIp
    (.ofLines [("x-forwarded-for", "1.2.3.4, 192.168.0.1, 10.0.0.2")]) ["10.0.0.0/8".toList]
      proxyAddress).1 = .v4 ⟨[1, 2, 3, 4], rfl⟩ := by
  decide

end Synvoid.Http
