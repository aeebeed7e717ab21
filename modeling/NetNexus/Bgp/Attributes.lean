import NetNexus.Bgp.Encoding
import NetNexus.Bgp.Route

/-!
# Path attributes of an announcement

`buildRoutePathAttributes` and `getMpReachNextHopBytes` of `BgpPeer`. What throws is an error.
-/

namespace Bgp

open Node Ip

/-- `writeUInt16` of `ipUtils`, which keeps the low bytes of a number -/
def writeUInt16 (value : ℤ) : Buffer := uint16be (value % 2 ^ 16).toNat

/-- `writeUInt32` of `ipUtils` -/
def writeUInt32 (value : ℤ) : Buffer := uint32be (value % 2 ^ 32).toNat

/-! ## Attributes -/

/-- `BGP_PATH_ATTR` of the attributes that carry NLRIs -/
def mpReachType : UInt8 := 14

@[inherit_doc mpReachType]
def mpUnreachType : UInt8 := 15

/-- `EXTENDED_LENGTH` of the flags of an attribute -/
def extendedLength (flags : UInt8) : Bool := flags &&& 0x10 != 0

def buildPathAttribute (type flags : UInt8) (value : Buffer) : Buffer :=
  let flags := if 255 < value.length then flags ||| 0x10 else flags
  let length :=
    if 255 < value.length ∨ extendedLength flags then uint16be value.length
    else [UInt8.ofNat value.length]
  flags :: type :: length ++ value

/-- `session.processCustomPkt` -/
def processCustomPkt (text : String) : Buffer :=
  hexDecode (strip0x (text.toList.filter fun c => !isWhiteSpace c))

def getOriginValue : Option OriginValue → ℤ
  | some (.name "EGP") => 1
  | some (.name "INCOMPLETE") => 2
  | some (.number value) => value
  | some (.name _) | none => 0

def asNumbers (asPath : String) : List ℤ :=
  (words asPath.toList).filterMap fun word => parseInt (String.ofList word)

/-- The segments of `parseRouteAsPath`. -/
def asSegments (use4ByteAsn : Bool) (numbers : List ℤ) : Buffer :=
  (numbers.toChunks 255).flatMap fun segment =>
    2 :: UInt8.ofNat segment.length ::
      segment.flatMap fun asn => if use4ByteAsn then writeUInt32 asn else writeUInt16 asn

def parseRouteCommunities (communities : List String) : Buffer :=
  communities.flatMap fun community =>
    match (community.toList.splitOn ':').map fun part => parseInt (String.ofList part) with
    | some asn :: some value :: _ => writeUInt16 asn ++ writeUInt16 value
    | _ => []

/-- The kind of address that an error asks for. -/
def kindText : Option Kind → String
  | some .ipv4 => "IPv4"
  | some .ipv6 => "IPv6"
  | none => "IP"

/-- `address` of the VPN and EVPN helpers, for any kind of address or for one -/
def parseAddress (ipaddr : Ipaddr) (value name : String) (kind : Option Kind := none) :
    Except String Address :=
  match ipaddr.parse (String.ofList (trim value.toList)) with
  | some address =>
    if kind.all (· = address.kind) then .ok address
    else .error (name ++ "请输入有效的" ++ kindText kind ++ "地址")
  | none => .error (name ++ "请输入有效的" ++ kindText kind ++ "地址")

/-- `toIPv4MappedAddress` -/
def mappedBytes (bytes : Vector UInt8 4) : Buffer :=
  List.replicate 10 0 ++ [0xff, 0xff] ++ bytes.toList

def encodeVpnNextHop (ipaddr : Ipaddr) (value : String) (afi : ℕ) : Except String Buffer := do
  let ip := match ← parseAddress ipaddr value "VPN MP Next Hop" with
    | .ipv4 bytes => if afi = 2 then mappedBytes bytes else bytes.toList
    | .ipv6 bytes => bytes.toList
  return List.replicate 8 0 ++ ip

/-- `text || fallback` -/
def orElseText (text fallback : String) : String := if text = "" then fallback else text

namespace SidStructure

/-- The fields in the order in which they are written, with their names. -/
def fields (s : SidStructure) : List (String × Option ℤ) :=
  [("locatorBlockLength", s.locatorBlockLength), ("locatorNodeLength", s.locatorNodeLength),
    ("functionLength", s.functionLength), ("argumentLength", s.argumentLength),
    ("transpositionLength", s.transpositionLength), ("transpositionOffset", s.transpositionOffset)]

def bytes (s : SidStructure) : Except String Buffer :=
  s.fields.mapM fun field =>
    match field.2 with
    | some value =>
      if 0 ≤ value ∧ value ≤ 128 then .ok (UInt8.ofNat value.toNat)
      else .error ("SRv6 SID结构字段 " ++ field.1 ++ " 无效")
    | none => .error ("SRv6 SID结构字段 " ++ field.1 ++ " 无效")

end SidStructure

namespace Peer

variable (ipaddr : Ipaddr) (peer : Peer)

/-- `getIpType` -/
def isIpv4 (ip : String) : Bool := match ipaddr.parse ip with
  | some (.ipv4 _) => true
  | _ => false

@[inherit_doc isIpv4]
def isIpv6 (ip : String) : Bool := match ipaddr.parse ip with
  | some (.ipv6 _) => true
  | _ => false

def buildAsPathAttribute (asPath : String) (prependLocalAs : Bool) : Buffer :=
  let prependLocalAs := peer.peerType == .ebgp && prependLocalAs
  let numbers :=
    if asPath = "" then []
    else asNumbers (if prependLocalAs then toString peer.localAs ++ " " ++ asPath else asPath)
  if numbers ≠ [] then buildPathAttribute 2 0x40 (asSegments peer.fourOctetAs numbers)
  else if prependLocalAs then
    buildPathAttribute 2 0x40 (asSegments peer.fourOctetAs [(peer.localAs : ℤ)])
  else buildPathAttribute 2 0x40 []

def canSendSrv6PrefixSid : Bool :=
  peer.sendSrv6PrefixSid && isIpv6 ipaddr peer.peerIp && (peer.afi == 1 || peer.afi == 2) &&
    peer.safi == 1

/-- `END_DT4` or `END_DT6` -/
def getDefaultSrv6EndpointBehavior : ℤ := if peer.afi = 1 then 0x13 else 0x12

/-- `buildSrv6ServiceTlv`, with the endpoint behaviour and the fields of the structure. -/
def buildSrv6ServiceTlv (type : UInt8) (sid : String) (behavior : ℤ) (structureValues : Buffer) :
    Except String Buffer := do
  let sidBytes ← ipaddr.ipToBytes sid
  if sidBytes.length ≠ 16 then .error ("SRv6 SID must be IPv6 address: " ++ sid)
  else
    let information : Buffer :=
      0 :: sidBytes ++ 0 :: writeUInt16 behavior ++ 0 :: 1 :: uint16be 6 ++ structureValues
    let service : Buffer := 0 :: 1 :: uint16be information.length ++ information
    return type :: uint16be service.length ++ service

def serviceTlv (type : UInt8) (service : ServiceSid) : Except String Buffer := do
  let values ← service.sidStructure.bytes
  buildSrv6ServiceTlv ipaddr type service.sid
    (service.endpointBehavior.getD peer.getDefaultSrv6EndpointBehavior) values

/-- `PREFIX_SID` with the given service TLVs -/
def prefixSidAttribute (tlvs : Buffer) : Buffer := buildPathAttribute 40 0xc0 tlvs

def getConfiguredIpv4NextHop : Except String String :=
  if isIpv4 ipaddr peer.localIp then .ok peer.localIp
  else if isIpv4 ipaddr peer.routerId then .ok peer.routerId
  else .error "NEXT_HOP自动模式需要IPv4本地地址或Router ID，请配置固定值"

/-- `buildConfiguredPathAttribute`. The services over SRv6 are written together elsewhere. -/
def buildConfiguredPathAttribute : ConfiguredAttribute → Except String Buffer
  | .origin value => .ok (buildPathAttribute 1 0x40 [UInt8.ofNat (value % 2 ^ 8).toNat])
  | .asPath value prependLocalAs => .ok (peer.buildAsPathAttribute value prependLocalAs)
  | .nextHop value => do
    let nextHop ← if value = "" then peer.getConfiguredIpv4NextHop ipaddr else .ok value
    return buildPathAttribute 3 0x40 (← ipaddr.ipToBytes nextHop)
  | .med value => .ok (buildPathAttribute 4 0x80 (writeUInt32 value))
  | .localPref value => .ok (buildPathAttribute 5 0x40 (writeUInt32 value))
  | .communities value => .ok (buildPathAttribute 8 0xc0 (parseRouteCommunities value))
  | .extendedCommunities value => do
    return buildPathAttribute 16 0xc0 (← encodeExtendedCommunities value)
  | .rt value => do
    let communities ← (words value.toList).mapM (extCommunitiesToBytes ipaddr 2)
    return buildPathAttribute 16 0xd0 communities.flatten
  | .custom value => .ok (processCustomPkt value)
  | .srv6 service =>
    if service.sid = "" then .ok []
    else do return prefixSidAttribute (← peer.serviceTlv ipaddr 5 service)
  | .srv6L2 _ => .error "Unsupported configured path attribute: srv6L2"
  | .srv6L3 _ => .error "Unsupported configured path attribute: srv6L3"
  | .other type => .error ("Unsupported configured path attribute: " ++ type)

/-- The type of the TLV of a service over SRv6. -/
def service? : ConfiguredAttribute → Option (UInt8 × ServiceSid)
  | .srv6L2 service => some (6, service)
  | .srv6L3 service => some (5, service)
  | _ => none

def buildEvpnSrv6PrefixSidAttribute (services : List (UInt8 × ServiceSid)) :
    Except String Buffer := do
  let tlvs ← services.mapM fun service => peer.serviceTlv ipaddr service.1 service.2
  return prefixSidAttribute tlvs.flatten

/-- The configured attributes one after the other. The first service stands for all of them. -/
def buildConfiguredAttributes (services : List (UInt8 × ServiceSid)) :
    Bool → List ConfiguredAttribute → Except String Buffer
  | _, [] => .ok []
  | written, entry :: entries =>
    match service? entry with
    | some _ => do
      let bytes ←
        if written then .ok [] else peer.buildEvpnSrv6PrefixSidAttribute ipaddr services
      return bytes ++ (← buildConfiguredAttributes services true entries)
    | none => do
      let bytes ← peer.buildConfiguredPathAttribute ipaddr entry
      return bytes ++ (← buildConfiguredAttributes services written entries)

/-- The SRv6 SID of a route whose attributes are not configured one by one. An absent behaviour is
`null`, which is written as 0. -/
def buildSrv6PrefixSidAttribute (attr : RouteAttr) : Except String Buffer :=
  if peer.canSendSrv6PrefixSid ipaddr && attr.srv6Sid != "" then do
    return prefixSidAttribute (← buildSrv6ServiceTlv ipaddr 5 attr.srv6Sid
      (attr.srv6EndpointBehavior.getD 0) [48, 16, 16, 0, 0, 0])
  else .ok []

def buildLocalPrefAttribute (attr : RouteAttr) : Buffer :=
  if peer.peerType = .ibgp then
    buildPathAttribute 5 0x40 (writeUInt32 (attr.localPref.getD 100))
  else []

def buildCommunityAttribute (attr : RouteAttr) : Buffer :=
  match parseRouteCommunities attr.communities with
  | [] => []
  | bytes => buildPathAttribute 8 0xc0 bytes

def buildExtendedCommunityAttribute (attr : RouteAttr) : Except String Buffer :=
  let communities := attr.extendedCommunities.getD [] ++
    (words attr.rt.toList).map fun word => String.ofList ("rt:".toList ++ word)
  if communities = [] then .ok []
  else do return buildPathAttribute 16 0xd0 (← encodeExtendedCommunities communities)

def buildNextHopAttribute (attr : RouteAttr) (includeIpv4NextHop : Bool) : Except String Buffer :=
  if includeIpv4NextHop then do
    return buildPathAttribute 3 0x40 (← ipaddr.ipToBytes (orElseText attr.nextHop peer.localIp))
  else .ok []

def buildRoutePathAttributes (route : Route) (includeIpv4NextHop : Bool) : Except String Buffer :=
  let attr := route.attr
  match attr.pathAttributes with
  | some entries => peer.buildConfiguredAttributes ipaddr (entries.filterMap service?) false entries
  | none => do
    let nextHop ← peer.buildNextHopAttribute ipaddr attr includeIpv4NextHop
    let extendedCommunities ← buildExtendedCommunityAttribute attr
    let prefixSid ← peer.buildSrv6PrefixSidAttribute ipaddr attr
    return buildPathAttribute 1 0x40 [UInt8.ofNat (getOriginValue attr.origin % 2 ^ 8).toNat] ++
      peer.buildAsPathAttribute attr.asPath true ++ nextHop ++
      buildPathAttribute 4 0x80 (writeUInt32 (attr.med.getD 0)) ++
        peer.buildLocalPrefAttribute attr ++
      buildCommunityAttribute attr ++ processCustomPkt attr.customAttr ++ extendedCommunities ++
      prefixSid

/-! ## The next hop of MP_REACH_NLRI -/

def getIpv6NlriNextHopBytes (nextHopIp : String) : Except String Buffer := do
  let bytes ← ipaddr.ipToBytes nextHopIp
  if bytes.length = 4 then ipaddr.ipToBytes ("::ffff:" ++ nextHopIp) else return bytes

/-- `route.mpNextHop || this.session.localIp` -/
def mpNextHopIp (route : Route) : String := orElseText (route.mpNextHop.getD "") peer.localIp

def getMpReachNextHopBytes (route : Route) : Except String Buffer :=
  match route.attr.mrtMpNextHopBytes with
  | some bytes => .ok bytes.toList
  | none =>
    if (peer.safi = 128 ∨ peer.safi = 70) ∧ route.attr.configured ∧ route.mpNextHop = none then
      .error "VPN/EVPN路由需要MP Next Hop节点"
    else if peer.safi = 70 ∧ route.encapsulationType = some .srv6 then do
      let bytes ← ipaddr.ipToBytes (peer.mpNextHopIp route)
      if bytes.length ≠ 16 then
        .error "EVPN SRv6的MP Next Hop必须为IPv6地址；IPv4邻居请配置IPv6固定下一跳"
      else return bytes
    else if peer.safi = 128 then encodeVpnNextHop ipaddr (peer.mpNextHopIp route) peer.afi
    else if route.attr.configured then
      if route.mpNextHop = none then .ok []
      else if peer.afi = 2 ∨ peer.safi = 241 then
        getIpv6NlriNextHopBytes ipaddr (peer.mpNextHopIp route)
      else ipaddr.ipToBytes (peer.mpNextHopIp route)
    else if peer.safi = 241 then ipaddr.ipToBytes (orElseText route.attr.nextHop peer.localIp)
    else if peer.afi = 2 then getIpv6NlriNextHopBytes ipaddr (peer.mpNextHopIp route)
    else if peer.afi = 1 ∧ peer.safi = 5 then ipaddr.ipToBytes peer.localIp
    else ipaddr.ipToBytes (peer.mpNextHopIp route)

end Peer

end Bgp
