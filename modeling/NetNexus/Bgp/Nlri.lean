import NetNexus.Bgp.VpnEvpn

/-!
# NLRIs of a peer

The NLRI builders of `BgpPeer` for the families without a normalizer of their own.
-/

namespace Bgp

open Node Ip

/-! ## Labels and queue pairs -/

def normalizeMplsLabel (label : ℤ) : Except String ℕ :=
  if 0 ≤ label ∧ label ≤ 0xfffff then .ok label.toNat
  else .error ("MPLS label " ++ toString label ++ " exceeds supported 20-bit range")

/-- `encodeMplsLabel` of the bottom of a stack -/
def encodeMplsLabel (label : ℤ) : Except String Buffer := do
  return uintBE 3 ((← normalizeMplsLabel label) * 16 + 1)

/-- `encodeQpDqpn`: the number of bits behind which the number stands, and its bytes. -/
def encodeQpDqpn (dqpn : ℤ) : Except String (UInt8 × Buffer) :=
  if dqpn < 0 ∨ 0xffffff < dqpn then
    .error ("DQPN " ++ toString dqpn ++ " exceeds supported 24-bit range")
  else if dqpn ≤ 0xff then .ok (8, uintBE 1 dqpn.toNat)
  else if dqpn ≤ 0xffff then .ok (16, uintBE 2 dqpn.toNat)
  else .ok (24, uintBE 3 dqpn.toNat)

/-- The label of a route is left out on request, and if its attributes are configured one by one
without a label. -/
def Route.hasNoLabel (route : Route) : Bool :=
  route.labelAbsent || (route.attr.configured && route.label.isNone)

@[inherit_doc Route.hasNoLabel]
def Route.hasNoDqpn (route : Route) : Bool :=
  route.dqpnAbsent || (route.attr.configured && route.dqpn.isNone)

namespace Peer

variable (ipaddr : Ipaddr) (peer : Peer) (route : Route)

/-- The path identifier in front of an NLRI. -/
def pathIdBytes (includePathId : Bool) : Buffer :=
  if includePathId then uint32be (normalizePathId route.pathId) else []

def buildIpPrefixNlri (includePathId : Bool) : Except String Buffer := do
  let prefixBytes ← ipaddr.ipToBytes route.ip
  return pathIdBytes route includePathId ++
    UInt8.ofNat route.mask :: prefixBytes.take (prefixSize route.mask)

def buildLabeledUnicastNlri (includePathId : Bool) : Except String Buffer := do
  let labelBytes ← if route.hasNoLabel then .ok [] else encodeMplsLabel (route.label.getD 16)
  let prefixBytes ← ipaddr.ipToBytes route.ip
  let nlriBitLength := labelBytes.length * 8 + route.mask
  if 32 < route.mask then
    .error ("Invalid IPv4 labeled-unicast NLRI length " ++ toString nlriBitLength)
  else
    return pathIdBytes route includePathId ++
      UInt8.ofNat nlriBitLength :: labelBytes ++ prefixBytes.take (prefixSize route.mask)

/-- The TLV of the queue pair. -/
def dqpnTlv : Except String Buffer :=
  if route.hasNoDqpn then .ok []
  else do
    let (bitLength, bytes) ← encodeQpDqpn (route.dqpn.getD 0)
    return 1 :: bitLength :: bytes

def buildQpNlri : Except String Buffer := do
  let dqpn ← dqpnTlv route
  let prefixBytes ← ipaddr.ipToBytes route.ip
  let nlri := dqpn ++ 2 :: UInt8.ofNat route.mask :: prefixBytes.take (prefixSize route.mask)
  if 255 < nlri.length then
    .error ("NLRIs total length " ++ toString nlri.length ++ " exceeds 255")
  else return UInt8.ofNat nlri.length :: nlri

/-! ## MVPN -/

/-- An address behind its length in bits. -/
def sizedIp (ip : String) : Except String Buffer := do
  let bytes ← ipaddr.ipToBytes ip
  return UInt8.ofNat (bytes.length * 8) :: bytes

/-- The source and the group of a multicast stream. -/
def sourceAndGroup : Except String Buffer := do
  let source ← sizedIp ipaddr route.sourceIp
  let group ← sizedIp ipaddr route.groupIp
  return source ++ group

/-- `value || fallback` of a number -/
def orElseNumber (value : Option ℤ) (fallback : ℤ) : ℤ :=
  if value.getD 0 = 0 then fallback else value.getD 0

/-- The fields behind the RD, by `BGP_MVPN_ROUTE_TYPE`. -/
def mvpnFields : Except String Buffer :=
  match route.routeType with
  | 1 => ipaddr.ipToBytes route.originatingRouterIp
  | 2 => writeUInt32BE
      (if route.attr.configured then route.sourceAs
      else some (orElseNumber route.sourceAs peer.localAs))
  | 3 => do
    let streams ← sourceAndGroup ipaddr route
    return streams ++ (← ipaddr.ipToBytes (orElseText route.originatingRouterIp peer.localIp))
  | 4 =>
    if route.leafRouteKey = "" then .ok []
    else do
      return hexDecode route.leafRouteKey.toList ++ (← ipaddr.ipToBytes route.originatingRouterIp)
  | 5 => sourceAndGroup ipaddr route
  | 6 | 7 => do
    let sourceAs ← writeUInt32BE (some (orElseNumber route.sourceAs 0))
    return sourceAs ++ (← sourceAndGroup ipaddr route)
  | _ => .ok []

/-- The value of the NLRI. The key of a leaf A-D route takes the place of its RD. -/
def mvpnContent : Except String Buffer := do
  let rd ←
    if route.routeType = 4 ∧ route.leafRouteKey ≠ "" then .ok []
    else rdStringToBytes ipaddr (route.rd.getD "")
  return rd ++ (← peer.mvpnFields ipaddr route)

def buildMvpnNlri : Except String Buffer := do
  let content ← peer.mvpnContent ipaddr route
  return UInt8.ofNat route.routeType :: UInt8.ofNat content.length :: content

end Peer

end Bgp
