import NetNexus.Bgp.Attributes
import Mathlib.Data.List.Dedup

/-!
# Canonical attribute records

`canonicalizeAttr` of `bgpPathAttrStore` on records as they come from forms, files and the store,
and the key by which a peer groups the routes of an announcement. JSON texts of records are
compared as records. A text that is not an integer is not a number here.
-/

namespace Bgp

open Node Ip

/-! ## Values of a record -/

/-- A JavaScript value of a field. -/
inductive Scalar where
  | undefined
  | null
  | text (value : String)
  | number (value : ℤ)
  deriving DecidableEq

namespace Scalar

def toText : Scalar → String
  | .undefined => "undefined"
  | .null => "null"
  | .text value => value
  | .number value => toString value

/-- The text, if the value is one. -/
def text? : Scalar → Option String
  | .text value => some value
  | _ => none

/-- The number of a text of digits behind `0x`, `0o` or `0b`. -/
def radixNumber (radix : ℕ) (digits : List Char) : Option ℤ :=
  if digits = [] then none
  else digits.foldlM (fun n c => do
    let digit ← hexValue c
    if digit < radix then some (n * radix + digit) else none) 0

/-- The number of decimal digits, with or without an exponent. -/
def decimalNumber (text : List Char) : Option ℤ :=
  match (text.map Char.toLower).splitOn 'e' with
  | [digits] => (decimal? digits).map Int.ofNat
  | [digits, exponent] => do
    let n ← decimal? digits
    let power ← decimal? (if exponent.head? = some '+' then exponent.tail else exponent)
    return n * 10 ^ power
  | _ => none

/-- `Number(text)` of a text that is not empty, if it is an integer -/
def numberOf (text : List Char) : Option ℤ :=
  match trim text with
  | [] => some 0
  | '0' :: 'x' :: digits | '0' :: 'X' :: digits => radixNumber 16 digits
  | '0' :: 'o' :: digits | '0' :: 'O' :: digits => radixNumber 8 digits
  | '0' :: 'b' :: digits | '0' :: 'B' :: digits => radixNumber 2 digits
  | '+' :: digits => decimalNumber digits
  | '-' :: digits => (decimalNumber digits).map fun n => -n
  | digits => decimalNumber digits

end Scalar

/-- `value.trim()` of a text -/
def trimText (text : String) : String := String.ofList (trim text.toList)

def normalizeString : Scalar → String
  | .undefined | .null => ""
  | value => trimText value.toText

def normalizeNumber (value : Scalar) (fallback : Option ℤ) : Option ℤ :=
  match value with
  | .undefined | .null | .text "" => fallback
  | .text value => (Scalar.numberOf value.toList).or fallback
  | .number value => some value

def normalizeOrigin : Scalar → Option OriginValue
  | .undefined | .null | .text "" => none
  | .text value => some (.name value)
  | .number value => some (.number value)

/-- What is not an array has no communities. -/
def normalizeCommunities (communities : Option (List Scalar)) : List String :=
  ((communities.getD []).map fun item => trimText item.toText).filter (· ≠ "")

/-- A field that holds one value or an array of them. -/
inductive OneOrMany where
  | one (value : Scalar)
  | many (values : List Scalar)

namespace OneOrMany

/-- The inputs of `parseEntries`. -/
def inputs : OneOrMany → List Scalar
  | .one .undefined | .one .null => []
  | .one value => [value]
  | .many values => values

def texts (value : OneOrMany) : Except String (List String) :=
  value.inputs.mapM fun
    | .text text => .ok text
    | _ => .error "Extended Community条目必须为字符串"

end OneOrMany

/-- An entry of `srv6Services` before it is normalized. -/
structure RawService where
  serviceType : String
  sid : Scalar
  endpointBehavior : Scalar
  sidStructure : SidStructure

/-- An attribute record as it is given. A field that is not there is `undefined`. -/
structure RawAttr where
  /-- `attributePolicy === 'configured'` -/
  configured : Bool := false
  configuredAttributes : Option (List Scalar) := none
  nextHop : Scalar := .undefined
  origin : Scalar := .undefined
  asPath : Scalar := .undefined
  med : Scalar := .undefined
  localPref : Scalar := .undefined
  communities : Option (List Scalar) := none
  customAttr : Scalar := .undefined
  rt : Scalar := .undefined
  srv6Sid : Scalar := .undefined
  srv6EndpointBehavior : Scalar := .undefined
  extendedCommunities : Option OneOrMany := none
  srv6Services : Option (List RawService) := none
  mrtMpNextHopBytes : Scalar := .undefined
  pathAttributes : Option (List ConfiguredAttribute) := none
  srv6SidStructure : Option SidStructure := none

/-! ## `canonicalizeAttr` -/

/-- The names of the configured attributes, without duplicates and sorted. -/
def normalizeConfigured (names : Option (List Scalar)) : List String :=
  ((names.getD []).filterMap Scalar.text?).dedup.mergeSort fun a b => decide (a ≤ b)

/-- A number that a configured record has only if the name of its field is among the names. -/
def optionalNumber (configured : Bool) (names : List String) (name : String) (value : Scalar)
    (fallback : ℤ) : Option ℤ :=
  if configured ∧ name ∉ names then none else normalizeNumber value (some fallback)

def normalizeService (raw : RawService) : Srv6Service :=
  ⟨raw.serviceType, normalizeString raw.sid, normalizeNumber raw.endpointBehavior none,
    raw.sidStructure⟩

/-- The next hops of MRT are 32 bytes in hexadecimal digits. -/
def normalizeMrtNextHop (value : Scalar) : Except String (Option (Vector UInt8 32)) :=
  match value with
  | .undefined => .ok none
  | .text text =>
    if h : text.toList.length = 64 ∧ (text.toList.all fun c => (hexValue c).isSome) ∧
        (hexDecode text.toList).length = 32 then
      .ok (some ⟨(hexDecode text.toList).toArray, h.2.2⟩)
    else .error "MRT IPv6 双下一跳必须为32字节十六进制值"
  | _ => .error "MRT IPv6 双下一跳必须为32字节十六进制值"

/-- An entry of `pathAttributes`. The flag of an AS path is a Boolean already. -/
def canonicalizeEntry : ConfiguredAttribute → Except String ConfiguredAttribute
  | .extendedCommunities value => .extendedCommunities <$> normalizeExtendedCommunities value
  | entry => .ok entry

/-- Only a configured record has `pathAttributes`. -/
def canonicalizeEntries (attr : RawAttr) : Except String (Option (List ConfiguredAttribute)) :=
  if attr.configured then some <$> (attr.pathAttributes.getD []).mapM canonicalizeEntry
  else .ok none

/-- A record without the field stays without it. -/
def canonicalizeCommunities (attr : RawAttr) : Except String (Option (List String)) :=
  match attr.extendedCommunities with
  | none => .ok none
  | some value => do return some (← normalizeExtendedCommunities (← value.texts))

def canonicalizeAttr (attr : RawAttr) : Except String RouteAttr := do
  let names := normalizeConfigured attr.configuredAttributes
  let srv6Sid := normalizeString attr.srv6Sid
  let extendedCommunities ← canonicalizeCommunities attr
  let mrtMpNextHopBytes ← normalizeMrtNextHop attr.mrtMpNextHopBytes
  let pathAttributes ← canonicalizeEntries attr
  return {
    nextHop := normalizeString attr.nextHop
    origin := normalizeOrigin attr.origin
    asPath := normalizeString attr.asPath
    med := optionalNumber attr.configured names "med" attr.med 0
    localPref := optionalNumber attr.configured names "localPref" attr.localPref 100
    communities := normalizeCommunities attr.communities
    customAttr := normalizeString attr.customAttr
    rt := normalizeString attr.rt
    srv6Sid
    srv6EndpointBehavior := normalizeNumber attr.srv6EndpointBehavior none
    extendedCommunities
    srv6Services := attr.srv6Services.map fun services => services.map normalizeService
    mrtMpNextHopBytes
    configuredAttributes := if attr.configured then names else []
    pathAttributes
    srv6SidStructure := if attr.configured ∧ srv6Sid ≠ "" then attr.srv6SidStructure else none }

/-- A canonical record is an attribute record again. -/
def RouteAttr.raw (attr : RouteAttr) : RawAttr where
  configured := attr.configured
  configuredAttributes :=
    if attr.configured then some (attr.configuredAttributes.map .text) else none
  nextHop := .text attr.nextHop
  origin := match attr.origin with
    | none => .null
    | some (.name value) => .text value
    | some (.number value) => .number value
  asPath := .text attr.asPath
  med := (attr.med.map Scalar.number).getD .null
  localPref := (attr.localPref.map Scalar.number).getD .null
  communities := some (attr.communities.map .text)
  customAttr := .text attr.customAttr
  rt := .text attr.rt
  srv6Sid := .text attr.srv6Sid
  srv6EndpointBehavior := (attr.srv6EndpointBehavior.map Scalar.number).getD .null
  extendedCommunities := attr.extendedCommunities.map fun value => .many (value.map .text)
  srv6Services := attr.srv6Services.map fun services => services.map fun entry =>
    ⟨entry.serviceType, .text entry.service.sid,
      (entry.service.endpointBehavior.map Scalar.number).getD .null, entry.service.sidStructure⟩
  mrtMpNextHopBytes := match attr.mrtMpNextHopBytes with
    | none => .undefined
    | some bytes => .text (String.ofList (hexEncode bytes.toList))
  pathAttributes := attr.pathAttributes
  srv6SidStructure := attr.srv6SidStructure

/-! ## Records as they are given -/

/-- What is read of a field that holds a text or nothing. -/
def Scalar.given : Scalar → String
  | .undefined | .null => ""
  | value => value.toText

/-- `value ?? fallback` where it is written as a number. What is no number is written as 0. -/
def Scalar.written : Scalar → Option ℤ
  | .undefined | .null => none
  | .text value => some ((numberOf value.toList).getD 0)
  | .number value => some value

/-- `Number.isInteger(Number(value)) ? Number(value) : this.getDefaultSrv6EndpointBehavior()` -/
def Peer.endpointBehavior (peer : Peer) : Scalar → ℤ
  | .undefined => peer.getDefaultSrv6EndpointBehavior
  | .null => 0
  | .text value => (Scalar.numberOf value.toList).getD peer.getDefaultSrv6EndpointBehavior
  | .number value => value

namespace Peer

variable (ipaddr : Ipaddr) (peer : Peer)

end Peer

end Bgp
