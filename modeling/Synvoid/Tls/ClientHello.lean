import Synvoid.Framework.IpAddr

/-! # Peeking at a ClientHello

    Model of `synvoid-tls/src/sni_peek.rs`: the server name (`extractSni`) and
    the JA4 fingerprint (`computeJa4`) of the first record a client sends, read
    position by position. Every access is within the bounds that were checked
    before, with one exception: the first two bytes of the first ALPN name are
    cut out of a text, and may split a character.

    SHA-256 is a parameter.
-/

namespace Synvoid.Tls

open Synvoid.Framework

/-! ### The parsers -/

inductive SniError where
  | tooShort
  | notHandshake (contentType : UInt8)
  | notClientHello (msgType : UInt8)
  | incomplete
  | invalidHostname
  deriving DecidableEq

/-- A number of three bytes. -/
def readU24 (l : Bytes) (i : Nat) : Checked Nat := do
  let b₀ ← index l i
  let b₁ ← index l (i + 1)
  let b₂ ← index l (i + 2)
  return b₀.toNat * 65536 + b₁.toNat * 256 + b₂.toNat

/-- The loop over the names of `parse_sni_list`. -/
def sniNameLoop (data : Bytes) : Nat → Nat → Checked (Except SniError (Option Str))
  | 0, _ => return .ok none
  | fuel + 1, pos =>
      if pos + 3 ≤ data.length then do
        let nameType ← index data pos
        let nameLen ← readU16 data (pos + 1)
        let pos := pos + 3
        if pos + nameLen.toNat > data.length then return .error .incomplete
        else if nameType = 0x00 then do
          let nameBytes ← range data pos (pos + nameLen.toNat)
          match fromUtf8 nameBytes with
          | none => return .error .invalidHostname
          | some hostname => return .ok (some hostname)
        else sniNameLoop data fuel (pos + nameLen.toNat)
      else return .ok none

def parseSniList (data : Bytes) : Checked (Except SniError (Option Str)) :=
  if data.length < 2 then return .error .tooShort
  else do
    let listLen ← readU16 data 0
    if data.length < 2 + listLen.toNat then return .error .incomplete
    else sniNameLoop data data.length 2

/-- The loop of `parse_sni_extension`. -/
def sniExtensionLoop (data : Bytes) : Nat → Nat → Checked (Except SniError (Option Str))
  | 0, _ => return .ok none
  | fuel + 1, pos =>
      if pos + 4 ≤ data.length then do
        let extType ← readU16 data pos
        let extLen ← readU16 data (pos + 2)
        let pos := pos + 4
        if pos + extLen.toNat > data.length then return .error .incomplete
        else if extType = 0x0000 then do
          let body ← range data pos (pos + extLen.toNat)
          parseSniList body
        else sniExtensionLoop data fuel (pos + extLen.toNat)
      else return .ok none

def parseSniExtension (data : Bytes) : Checked (Except SniError (Option Str)) :=
  sniExtensionLoop data data.length 0

/-- The body of the handshake message, up to the check of its first 34 bytes. -/
def clientHelloBody (data : Bytes) : Checked (Except SniError Bytes) :=
  if data.length < 4 then return .error .tooShort
  else do
    let msgType ← index data 0
    if msgType ≠ 0x01 then return .error (.notClientHello msgType)
    else do
      let msgLen ← readU24 data 1
      if data.length < 4 + msgLen then return .error .incomplete
      else do
        let hello ← range data 4 (4 + msgLen)
        if hello.length < 34 then return .error .tooShort else return .ok hello

def parseClientHelloSni (data : Bytes) : Checked (Except SniError (Option Str)) :=
  tryThen (clientHelloBody data) fun hello =>
    if 34 ≥ hello.length then return .error .tooShort
    else do
      let sessionIdLen ← index hello 34
      let pos := 34 + 1 + sessionIdLen.toNat
      if pos + 2 > hello.length then return .error .tooShort
      else do
        let cipherSuitesLen ← readU16 hello pos
        let pos := pos + 2 + cipherSuitesLen.toNat
        if pos ≥ hello.length then return .error .tooShort
        else do
          let compressionLen ← index hello pos
          let pos := pos + 1 + compressionLen.toNat
          -- a hello without extensions
          if pos + 2 > hello.length then return .ok none
          else do
            let extensionsLen ← readU16 hello pos
            let pos := pos + 2
            if pos + extensionsLen.toNat > hello.length then return .error .incomplete
            else do
              let extensions ← range hello pos (pos + extensionsLen.toNat)
              parseSniExtension extensions

def extractSni (data : Bytes) : Checked (Except SniError (Option Str)) :=
  if data.length < 5 then return .error .tooShort
  else do
    let contentType ← index data 0
    if contentType ≠ 0x16 then return .error (.notHandshake contentType)
    else do
      let _recordVersion ← readU16 data 1
      let recordLen ← readU16 data 3
      if data.length < 5 + recordLen.toNat then return .error .incomplete
      else do
        let handshake ← range data 5 (5 + recordLen.toNat)
        parseClientHelloSni handshake

structure ClientHelloInfo where
  tlsVersion : UInt16
  cipherSuites : List UInt16
  extensions : List UInt16
  alpnValues : List Str
  hasSni : Bool
  deriving DecidableEq

/-- The loop of `parse_alpn_extension`. -/
def alpnLoop (data : Bytes) (stop : Nat) : Nat → Nat → List Str → Checked (List Str)
  | 0, _, values => return values
  | fuel + 1, pos, values =>
      if pos < stop then do
        let protoLen ← index data pos
        let pos := pos + 1
        if pos + protoLen.toNat > stop then return values
        else do
          let proto ← range data pos (pos + protoLen.toNat)
          alpnLoop data stop fuel (pos + protoLen.toNat) (values ++ (fromUtf8 proto).toList)
      else return values

def parseAlpnExtension (data : Bytes) : Checked (Except SniError (List Str)) :=
  if data.length < 2 then return .ok []
  else do
    let protoListLen ← readU16 data 0
    if data.length < 2 + protoListLen.toNat then return .ok []
    else do
      let values ← alpnLoop data (2 + protoListLen.toNat) data.length 2 []
      return .ok values

/-- The loop of `parse_extensions_for_ja4`: types, ALPN names and whether there is a server name. -/
def ja4ExtensionLoop (data : Bytes) : Nat → Nat → List UInt16 × List Str × Bool →
    Checked (Except SniError (List UInt16 × List Str × Bool))
  | 0, _, state => return .ok state
  | fuel + 1, pos, (extTypes, alpnValues, hasSni) =>
      if pos + 4 ≤ data.length then do
        let extType ← readU16 data pos
        let extLen ← readU16 data (pos + 2)
        let pos := pos + 4
        if pos + extLen.toNat > data.length then return .error .incomplete
        else do
          let extTypes := extTypes ++ [extType]
          if extType = 0x0000 then
            ja4ExtensionLoop data fuel (pos + extLen.toNat) (extTypes, alpnValues, true)
          else if extType = 0x0010 then do
            let body ← range data pos (pos + extLen.toNat)
            match ← parseAlpnExtension body with
            | .ok alpns => ja4ExtensionLoop data fuel (pos + extLen.toNat) (extTypes, alpns, hasSni)
            | .error _ =>
                ja4ExtensionLoop data fuel (pos + extLen.toNat) (extTypes, alpnValues, hasSni)
          else ja4ExtensionLoop data fuel (pos + extLen.toNat) (extTypes, alpnValues, hasSni)
      else return .ok (extTypes, alpnValues, hasSni)

def parseExtensionsForJa4 (data : Bytes) :
    Checked (Except SniError (List UInt16 × List Str × Bool)) :=
  ja4ExtensionLoop data data.length 0 ([], [], false)

/-- The loop over the cipher suites of `parse_client_hello_info`. -/
def cipherLoop (hello : Bytes) (cipherEnd : Nat) : Nat → Nat → List UInt16 → Checked (List UInt16)
  | 0, _, cipherSuites => return cipherSuites
  | fuel + 1, pos, cipherSuites =>
      if pos + 2 ≤ cipherEnd ∧ cipherEnd ≤ hello.length then do
        let cipher ← readU16 hello pos
        cipherLoop hello cipherEnd fuel (pos + 2) (cipherSuites ++ [cipher])
      else return cipherSuites

/-- `parse_client_hello_info` from the length of the extension block on. -/
def parseInfoExtensions (hello : Bytes) (tlsVersion : UInt16) (cipherSuites : List UInt16)
    (pos : Nat) : Checked (Except SniError (Option ClientHelloInfo)) :=
  if pos + 2 > hello.length then
    return .ok (some ⟨tlsVersion, cipherSuites, [], [], false⟩)
  else do
    let extensionsLen ← readU16 hello pos
    let pos := pos + 2
    if pos + extensionsLen.toNat > hello.length then return .error .incomplete
    else do
      let extensions ← range hello pos (pos + extensionsLen.toNat)
      tryThen (parseExtensionsForJa4 extensions) fun (extTypes, alpnValues, hasSni) =>
        return .ok (some ⟨tlsVersion, cipherSuites, extTypes, alpnValues, hasSni⟩)

/-- `parse_client_hello_info` from the cipher suites on. -/
def parseInfoCiphers (hello : Bytes) (tlsVersion : UInt16) (pos : Nat) :
    Checked (Except SniError (Option ClientHelloInfo)) :=
  if pos + 2 > hello.length then return .error .tooShort
  else do
    let cipherSuitesLen ← readU16 hello pos
    let pos := pos + 2
    let cipherEnd := pos + cipherSuitesLen.toNat
    let cipherSuites ← cipherLoop hello cipherEnd hello.length pos []
    if cipherEnd ≥ hello.length then return .error .tooShort
    else do
      let compressionLen ← index hello cipherEnd
      parseInfoExtensions hello tlsVersion cipherSuites (cipherEnd + 1 + compressionLen.toNat)

/-- `parse_client_hello_info` from the version on. -/
def parseInfoBody (hello : Bytes) : Checked (Except SniError (Option ClientHelloInfo)) := do
  let tlsVersion ← readU16 hello 0
  if 34 ≥ hello.length then return .error .tooShort
  else do
    let sessionIdLen ← index hello 34
    parseInfoCiphers hello tlsVersion (34 + 1 + sessionIdLen.toNat)

/-- `parse_client_hello_info` behind the record layer. -/
def parseHelloInfo (data : Bytes) : Checked (Except SniError (Option ClientHelloInfo)) :=
  tryThen (clientHelloBody data) parseInfoBody

def parseClientHelloInfo (data : Bytes) : Checked (Except SniError (Option ClientHelloInfo)) :=
  if data.length < 5 then return .error .tooShort
  else do
    let contentType ← index data 0
    if contentType ≠ 0x16 then return .error (.notHandshake contentType)
    else do
      let recordLen ← readU16 data 3
      if data.length < 5 + recordLen.toNat then return .error .incomplete
      else do
        let handshake ← range data 5 (5 + recordLen.toNat)
        parseHelloInfo handshake

/-! ### The fingerprint -/

def isGrease (value : UInt16) : Bool := value &&& 0x0F0F == 0x0A0A

/-- Padded with zeros to a width. -/
def zeroPadded (width : Nat) (digits : Str) : Str :=
  List.replicate (width - digits.length) '0' ++ digits

/-- The versions that have a name of their own. -/
def versionName (tlsVersion : UInt16) : Option Str :=
  if tlsVersion = 0x0304 then some "13".toList
  else if tlsVersion = 0x0303 then some "12".toList
  else if tlsVersion = 0x0302 then some "11".toList
  else if tlsVersion = 0x0301 then some "10".toList
  else none

def unknownVersion (tlsVersion : UInt16) : Str :=
  zeroPadded 2 (hexadecimal (tlsVersion.toNat / 256)) ++
    zeroPadded 2 (hexadecimal (tlsVersion.toNat % 256)) ++ "_unknown".toList

section fingerprint
variable (sha256 : Bytes → Vector UInt8 32)

/-- `hex::encode`. -/
def hexEncode (bytes : Bytes) : Str := bytes.flatMap fun b => zeroPadded 2 (hexadecimal b.toNat)

def sha256HexFirst12 (input : Str) : Checked Str :=
  sliceTo (hexEncode (sha256 (utf8 input)).toList) 12

/-- The numbers that are not GREASE, sorted and written with commas. -/
def sortedList (values : List UInt16) : Str :=
  [','].intercalate (((values.filter fun v => !isGrease v).insertionSort (· ≤ ·)).map fun v =>
    zeroPadded 4 (hexadecimal v.toNat))

/-- The first two bytes of the first ALPN name. -/
def firstAlpn : List Str → Checked Str
  | [] => return []
  | v :: _ => sliceTo v (min (byteLen v) 2)

def fingerprint (info : ClientHelloInfo) : Checked Str :=
  match versionName info.tlsVersion with
  | none => return unknownVersion info.tlsVersion
  | some tlsVersion => do
      let cipherCount := min info.cipherSuites.length 99
      let sniFlag := if info.hasSni then "d".toList else "i".toList
      let first ← firstAlpn info.alpnValues
      let first := if first = [] then "00".toList else first
      let cipherHash ← sha256HexFirst12 sha256 (sortedList info.cipherSuites)
      let extHash ← sha256HexFirst12 sha256 (sortedList info.extensions)
      return ['_'].intercalate
        [tlsVersion, zeroPadded 2 (decimal cipherCount), sniFlag, first, cipherHash, extHash]

def computeJa4 (data : Bytes) : Checked (Option Str) := do
  match ← parseClientHelloInfo data with
  | .error _ => return none
  | .ok none => return none
  | .ok (some info) =>
      let text ← fingerprint sha256 info
      return some text

end fingerprint

end Synvoid.Tls
