import NetNexus.Bgp.Entry

/-!
# Reading an EVPN route

The readers of the fields of a route and the parsers of the route types. A reader does not stop at
the end of the value but notes what is missing.
-/

namespace Bgp

open Node

/-- The position of a reader in the value of a route. A reader that takes a length byte that is not
there moves its position behind the end. -/
structure EvpnCursor where
  rest : Buffer
  behindEnd : Bool := false
  errors : List String := []

abbrev EvpnReader := StateM EvpnCursor

namespace EvpnReader

/-- The position is at the end and the field is noted as missing. -/
def missing (c : EvpnCursor) (field : String) : EvpnCursor :=
  { rest := [], errors := c.errors ++ ["EVPN " ++ field ++ " is truncated"] }

def note (message : String) : EvpnReader Unit := fun c =>
  ((), { c with errors := c.errors ++ [message] })

def noteIf (condition : Prop) [Decidable condition] (message : String) : EvpnReader Unit :=
  if condition then note message else pure ()

/-- A field that is absent if it is not complete. -/
def readField (length : ℕ) (field : String) : EvpnReader (Option Buffer) := fun c =>
  if c.rest.length < length then (none, missing c field)
  else (some (c.rest.take length), { c with rest := c.rest.drop length })

/-- `readEvpnRd` -/
def readRd : EvpnReader (Option Buffer) := readField 8 "RD"

/-- `readEvpnUint32` -/
def readUint32 (field : String) : EvpnReader (Option ℕ) := do
  return (← readField 4 field).map ofBytes

/-- `readEvpnLabel`, with the label as it is on the wire -/
def readLabel (field : String) : EvpnReader (Option ℕ) := do
  return (← readField 3 field).map ofBytes

/-- `readEvpnBytes`: what there is of a field. -/
def readBytes (length : ℕ) (field : String) : EvpnReader Buffer := fun c =>
  if c.rest.length < length ∨ c.behindEnd then (c.rest, missing c field)
  else (c.rest.take length, { c with rest := c.rest.drop length })

/-- The byte at the position, or 0 behind the end. -/
def readLength : EvpnReader ℕ := fun c =>
  match c.rest with
  | b :: rest => (b.toNat, { c with rest })
  | [] => (0, { c with behindEnd := true })

/-- `parseEvpnIpByLength` -/
def readIp (bitLength : ℕ) (field : String) : EvpnReader (Option Buffer) :=
  if bitLength = 0 then pure none
  else if bitLength = 32 then do return some (addressBytes 4 (← readBytes 4 field) 32)
  else if bitLength = 128 then do return some (addressBytes 16 (← readBytes 16 field) 128)
  else do
    note ("EVPN " ++ field ++ numbered " length is unsupported: " bitLength)
    return some (← readBytes (prefixSize bitLength) field)

/-- `parseEvpnIpPrefix` -/
def readIpPrefix (prefixLength : ℕ) (isIpv6 : Bool) (field : String) : EvpnReader Buffer := do
  let size := if isIpv6 then 16 else 4
  noteIf (8 * size < prefixLength)
    ("EVPN " ++ field ++ numbered " length " prefixLength ++ numbered " exceeds " (8 * size))
  return addressBytes size (← readBytes size field) prefixLength

/-- `readEvpnUint8` -/
def readUint8 (field : String) : EvpnReader (Option ℕ) := do
  return (← readField 1 field).map ofBytes

/-- `readEvpnIpAddressField` -/
def readSizedIp (field : String) : EvpnReader SizedIp := do
  match ← readUint8 (field ++ " Length") with
  | none => return {}
  | some length => return { length := some length, ip := ← readIp length field }

/-- The position is not at the end of the value. -/
def noteTrailing (route : String) : EvpnReader Unit := fun c =>
  (noteIf (c.rest ≠ [] ∨ c.behindEnd) ("EVPN " ++ route ++ " route has trailing bytes")).run c

end EvpnReader

open EvpnReader

variable (length : Option ℕ)

/-- The length of a route as it is printed. -/
def lengthText : String := (length.map toString).getD "undefined"

def parseEvpnEthernetAutoDiscoveryRoute : EvpnReader EvpnNlri := do
  noteIf (length ≠ some 25)
    ("EVPN Ethernet A-D route length must be 25 octets: " ++ lengthText length)
  let rd ← readRd
  let esi ← readBytes 10 "ESI"
  let tag ← readUint32 "Ethernet Tag ID"
  let label ← readLabel "MPLS Label"
  return { routeType := 1, rd, esi := some esi, ethernetTagId := tag, labels := label.toList }

/-- The size of an address of that many bits, if there is one. -/
def ipBytes (ipLength : ℕ) : Option ℕ :=
  if ipLength = 0 then some 0 else if ipLength = 32 then some 4
  else if ipLength = 128 then some 16 else none

def parseEvpnMacIpAdvertisementRoute : EvpnReader EvpnNlri := do
  let rd ← readRd
  let esi ← readBytes 10 "ESI"
  let tag ← readUint32 "Ethernet Tag ID"
  let macLength ← readLength
  noteIf (macLength ≠ 48)
    (numbered "EVPN MAC/IP Advertisement MAC length is unsupported: " macLength)
  let mac ← readBytes (prefixSize macLength) "MAC Address"
  let ipLength ← readLength
  noteIf (∃ size ∈ ipBytes ipLength, length ≠ some (33 + size) ∧ length ≠ some (36 + size))
    ("EVPN MAC/IP Advertisement route length is inconsistent: " ++ lengthText length)
  let ip ← readIp ipLength "IP Address"
  let label ← readLabel "MPLS Label 1"
  let label2 ← fun c => if 3 ≤ c.rest.length then (readLabel "MPLS Label 2").run c else (none, c)
  noteTrailing "MAC/IP Advertisement"
  return { routeType := 2, rd, esi := some esi, ethernetTagId := tag, macLength := some macLength
           macAddress := some mac, ipLength := some ipLength, ipAddress := ip
           labels := label.toList ++ label2.toList }

/-- The errors of a route whose length depends on the kind of its only address. -/
def noteOriginLength (route : String) (length : Option ℕ) (ipLength : ℕ) (ipv4 ipv6 : ℕ) :
    EvpnReader Unit := do
  noteIf (ipLength = 32 ∧ length ≠ some ipv4)
    ("EVPN " ++ route ++ numbered " IPv4 route length must be " ipv4 ++ " octets: " ++
      lengthText length)
  noteIf (ipLength = 128 ∧ length ≠ some ipv6)
    ("EVPN " ++ route ++ numbered " IPv6 route length must be " ipv6 ++ " octets: " ++
      lengthText length)

def parseEvpnInclusiveMulticastRoute : EvpnReader EvpnNlri := do
  let rd ← readRd
  let tag ← readUint32 "Ethernet Tag ID"
  let ipLength ← readLength
  noteOriginLength "Inclusive Multicast" length ipLength 17 29
  let origin ← readIp ipLength "Originating Router IP"
  noteTrailing "Inclusive Multicast"
  return { routeType := 3, rd, ethernetTagId := tag, ipLength := some ipLength
           originatingRouterIp := origin }

def parseEvpnEthernetSegmentRoute : EvpnReader EvpnNlri := do
  let rd ← readRd
  let esi ← readBytes 10 "ESI"
  let ipLength ← readLength
  noteOriginLength "Ethernet Segment" length ipLength 23 35
  let origin ← readIp ipLength "Originating Router IP"
  noteTrailing "Ethernet Segment"
  return { routeType := 4, rd, esi := some esi, ipLength := some ipLength
           originatingRouterIp := origin }

def parseEvpnIpPrefixRoute : EvpnReader EvpnNlri := do
  let rd ← readRd
  let esi ← readBytes 10 "ESI"
  let tag ← readUint32 "Ethernet Tag ID"
  let prefixLength ← readLength
  let isIpv6 := length.any (58 ≤ ·) || 32 < prefixLength
  noteIf (length ≠ some 34 ∧ length ≠ some 58)
    ("EVPN IP Prefix route length must be 34 or 58 octets: " ++ lengthText length)
  let ipPrefix ← readIpPrefix prefixLength isIpv6 "IP Prefix"
  let gateway ← readIp (if isIpv6 then 128 else 32) "Gateway IP"
  let label ← readLabel "MPLS Label"
  noteTrailing "IP Prefix"
  return { routeType := 5, rd, esi := some esi, ethernetTagId := tag
           prefixLength := some prefixLength, ipPrefix := some ipPrefix, gatewayIp := gateway
           labels := label.toList }

/-! ## Multicast routes -/

/-- `parseEvpnMulticastSourceGroupOrigin` -/
def readSourceGroupOrigin : EvpnReader (SizedIp × SizedIp × SizedIp) := do
  let source ← readSizedIp "Multicast Source Address"
  let group ← readSizedIp "Multicast Group Address"
  let originator ← readSizedIp "Originator Router Address"
  return (source, group, originator)

def parseEvpnSelectiveMulticastEthernetTagRoute : EvpnReader EvpnNlri := do
  let rd ← readRd
  let tag ← readUint32 "Ethernet Tag ID"
  let (source, group, originator) ← readSourceGroupOrigin
  let flags ← readUint8 "Flags"
  noteTrailing "Selective Multicast Ethernet Tag"
  return { routeType := 6, rd, ethernetTagId := tag, source, group, originator, flags }

def parseEvpnMulticastMembershipReportSynchRoute : EvpnReader EvpnNlri := do
  let rd ← readRd
  let esi ← readBytes 10 "ESI"
  let tag ← readUint32 "Ethernet Tag ID"
  let (source, group, originator) ← readSourceGroupOrigin
  let flags ← readUint8 "Flags"
  noteTrailing "Multicast Membership Report Synch"
  return { routeType := 7, rd, esi := some esi, ethernetTagId := tag, source, group, originator
           flags }

def parseEvpnMulticastLeaveSynchRoute : EvpnReader EvpnNlri := do
  let rd ← readRd
  let esi ← readBytes 10 "ESI"
  let tag ← readUint32 "Ethernet Tag ID"
  let (source, group, originator) ← readSourceGroupOrigin
  let reserved ← readUint32 "Reserved"
  let maximumResponseTime ← readUint8 "Maximum Response Time"
  let flags ← readUint8 "Flags"
  noteTrailing "Multicast Leave Synch"
  return { routeType := 8, rd, esi := some esi, ethernetTagId := tag, source, group, originator
           reserved, maximumResponseTime, flags }

def parseEvpnPerRegionIPmsiAdRoute : EvpnReader EvpnNlri := do
  noteIf (length ≠ some 20)
    ("EVPN Per-Region I-PMSI A-D route length must be 20 octets: " ++ lengthText length)
  let rd ← readRd
  let tag ← readUint32 "Ethernet Tag ID"
  let regionId ← readBytes 8 "Region ID"
  noteTrailing "Per-Region I-PMSI A-D"
  return { routeType := 9, rd, ethernetTagId := tag, regionId }

def parseEvpnSPmsiAdRoute : EvpnReader EvpnNlri := do
  let rd ← readRd
  let tag ← readUint32 "Ethernet Tag ID"
  let (source, group, originator) ← readSourceGroupOrigin
  noteTrailing "S-PMSI A-D"
  return { routeType := 10, rd, ethernetTagId := tag, source, group, originator }

/-- The parser of a route type whose routes are not about another route. -/
def evpnKeyParser (routeType : ℕ) : Option (Option ℕ → EvpnReader EvpnNlri) :=
  match routeType with
  | 1 => some parseEvpnEthernetAutoDiscoveryRoute
  | 2 => some parseEvpnMacIpAdvertisementRoute
  | 3 => some parseEvpnInclusiveMulticastRoute
  | 4 => some parseEvpnEthernetSegmentRoute
  | 5 => some parseEvpnIpPrefixRoute
  | 6 => some fun _ => parseEvpnSelectiveMulticastEthernetTagRoute
  | 7 => some fun _ => parseEvpnMulticastMembershipReportSynchRoute
  | 8 => some fun _ => parseEvpnMulticastLeaveSynchRoute
  | 9 => some parseEvpnPerRegionIPmsiAdRoute
  | 10 => some fun _ => parseEvpnSPmsiAdRoute
  | _ => none

/-! ## Leaf routes -/

/-- The route key and the originator at the end of a value, if it has that many bytes. -/
def leafCandidate (value : Buffer) (size : ℕ) : Option (Buffer × Buffer) :=
  let lengthPosition := value.length - size - 1
  if size < value.length ∧ value[lengthPosition]? = some (UInt8.ofNat (8 * size)) then
    some (value.take lengthPosition, value.drop (lengthPosition + 1))
  else none

/-- `routeKeyLooksLikeEvpnNlri` -/
def looksLikeEvpnNlri (routeKey : Buffer) : Bool :=
  match routeKey with
  | _ :: length :: value => length.toNat == value.length
  | _ => false

def findEvpnLeafAdOriginator (value : Buffer) : Option (Buffer × Buffer) :=
  match leafCandidate value 4, leafCandidate value 16 with
  | some ipv4, some ipv6 =>
    if looksLikeEvpnNlri ipv6.1 && !looksLikeEvpnNlri ipv4.1 then some ipv6 else some ipv4
  | some ipv4, none => some ipv4
  | none, ipv6 => ipv6

/-- The route that a route key is about, if the key is read as one: `routeKeyRoute` -/
def routeKeyRoute (routeKey : Buffer) : Option EvpnNlri :=
  match routeKey with
  | type :: length :: value =>
    if length.toNat = value.length ∧ type.toNat ≠ 11 then
      match evpnKeyParser type.toNat with
      | some read => some ((read (some length.toNat)).run { rest := value }).1
      | none => some { routeType := type.toNat, rd := none }
    else none
  | _ => none

/-- The error of `buildEvpnLeafAdRouteKeyFields` -/
def noteRouteKeyLength (routeKey : Buffer) : EvpnReader Unit :=
  match routeKey with
  | _ :: length :: value =>
    noteIf (length.toNat ≠ value.length)
      (numbered "EVPN Leaf A-D route key length is inconsistent: " length.toNat)
  | _ => pure ()

def parseEvpnLeafAdRoute : EvpnReader EvpnNlri := fun c =>
  match findEvpnLeafAdOriginator c.rest with
  | some (routeKey, address) =>
    let originator : SizedIp := { length := some (8 * address.length), ip := some address }
    ({ routeType := 11, rd := (routeKeyRoute routeKey).bind EvpnNlri.rd, originator, routeKey },
      ((noteRouteKeyLength routeKey).run { c with rest := [] }).2)
  | none =>
    ({ routeType := 11, rd := (routeKeyRoute c.rest).bind EvpnNlri.rd, routeKey := c.rest },
      ((do
        note "EVPN Leaf A-D originator address length is unsupported or truncated"
        noteRouteKeyLength c.rest : EvpnReader Unit).run { c with rest := [] }).2)

def evpnParser (routeType : ℕ) : Option (Option ℕ → EvpnReader EvpnNlri) :=
  if routeType = 11 then some fun _ => parseEvpnLeafAdRoute else evpnKeyParser routeType

/-- `parseEvpnNlri`. Without a length byte the position behind the route is not a number. -/
def parseEvpnNlri (routeType : UInt8) (rest : Buffer) : Entry :=
  let length := rest.head?.map UInt8.toNat
  let value := rest.tail.take (length.getD 0)
  let consumed := 2 + value.length
  let complete := length.isSome
  match evpnParser routeType.toNat with
  | some read =>
    let (fields, cursor) := (read length).run { rest := value }
    { nlri := .evpn fields, consumed, errors := cursor.errors, raw := some value, complete }
  | none =>
    { nlri := .fallback routeType.toNat (length.getD 0) value, consumed, raw := some value,
      complete }

end Bgp
