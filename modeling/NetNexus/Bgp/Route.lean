import NetNexus.Bgp.Session

/-!
# Routes and peers

A route of an instance with its path attributes, and what a peer and its session are configured
with, as far as the building of UPDATE messages reads it.
-/

namespace Bgp

/-- The origin of a route is given by its name or by its number. -/
inductive OriginValue where
  | name (text : String)
  | number (value : ℤ)
  deriving DecidableEq

/-- The fields of the structure of an SRv6 SID. -/
structure SidStructure where
  locatorBlockLength : Option ℤ := none
  locatorNodeLength : Option ℤ := none
  functionLength : Option ℤ := none
  argumentLength : Option ℤ := none
  transpositionLength : Option ℤ := none
  transpositionOffset : Option ℤ := none
  deriving DecidableEq

/-- An SRv6 service SID. -/
structure ServiceSid where
  sid : String
  endpointBehavior : Option ℤ := none
  sidStructure : SidStructure := {}
  deriving DecidableEq

/-- A path attribute of a route whose attributes are configured one by one, by `entry.type`. -/
inductive ConfiguredAttribute where
  | origin (value : ℤ)
  | asPath (value : String) (prependLocalAs : Bool)
  | nextHop (value : String)
  | med (value : ℤ)
  | localPref (value : ℤ)
  | communities (value : List String)
  | extendedCommunities (value : List String)
  | rt (value : String)
  | custom (value : String)
  | srv6 (service : ServiceSid)
  | srv6L2 (service : ServiceSid)
  | srv6L3 (service : ServiceSid)
  | other (type : String)
  deriving DecidableEq

/-- An entry of `srv6Services`. -/
structure Srv6Service where
  serviceType : String
  service : ServiceSid
  deriving DecidableEq

/-- The attributes of a route as `canonicalizeAttr` leaves them. With `attributePolicy` set to
`configured` the attributes are `pathAttributes`. -/
structure RouteAttr where
  nextHop : String := ""
  origin : Option OriginValue := none
  asPath : String := ""
  med : Option ℤ := some 0
  localPref : Option ℤ := some 100
  communities : List String := []
  customAttr : String := ""
  rt : String := ""
  srv6Sid : String := ""
  srv6EndpointBehavior : Option ℤ := none
  extendedCommunities : Option (List String) := none
  srv6Services : Option (List Srv6Service) := none
  /-- The two next hops of a route that was imported from MRT. -/
  mrtMpNextHopBytes : Option (Vector UInt8 32) := none
  configuredAttributes : List String := []
  pathAttributes : Option (List ConfiguredAttribute) := none
  srv6SidStructure : Option SidStructure := none
  deriving DecidableEq

/-- `attributePolicy === 'configured'` -/
def RouteAttr.configured (attr : RouteAttr) : Bool := attr.pathAttributes.isSome

/-- `encapsulationType` of an EVPN route -/
inductive Encapsulation where
  | mpls
  | vxlan
  | srv6
  deriving DecidableEq

/-- A route of any family. A field that the family does not have is absent. -/
structure Route where
  ip : String := ""
  mask : ℕ := 0
  rd : Option String := none
  pathId : Option ℤ := none
  /-- `nlriEncoding === 'mpReach'` -/
  mpReach : Bool := false
  mpNextHop : Option String := none
  label : Option ℤ := none
  label2 : Option ℤ := none
  vni : Option ℤ := none
  vni2 : Option ℤ := none
  dqpn : Option ℤ := none
  routeType : ℕ := 0
  originatingRouterIp : String := ""
  sourceIp : String := ""
  groupIp : String := ""
  sourceAs : Option ℤ := none
  leafRouteKey : String := ""
  esi : Option String := none
  ethernetTagId : Option ℤ := none
  macAddress : Option String := none
  ipAddress : Option String := none
  gatewayIp : String := ""
  esImportRt : String := ""
  encapsulationType : Option Encapsulation := none
  /-- `_labelAbsent` and `_dqpnAbsent` mark routes that are to be withdrawn. -/
  labelAbsent : Bool := false
  dqpnAbsent : Bool := false
  attr : RouteAttr := {}
  deriving DecidableEq

/-- `BgpRoute.normalizePathId` -/
def normalizePathId (pathId : Option ℤ) : ℕ :=
  match pathId with
  | some n => if 0 ≤ n ∧ n ≤ 0xffffffff then n.toNat else 0
  | none => 0

/-- The families for which the sending of additional paths is negotiated. No session offers it for
any other family. -/
structure AddPathFamilies where
  ipv4Unicast : Bool := false
  ipv6Unicast : Bool := false
  ipv4LabelUnicast : Bool := false
  deriving DecidableEq

/-- A peer with what it reads from its session and its instance. -/
structure Peer where
  family : AddrFamily
  localIp : String
  localAs : ℕ
  routerId : String
  peerIp : String
  peerType : PeerType
  localCapFlags : ℕ := 0
  addPath : AddPathFamilies := {}
  sendSrv6PrefixSid : Bool := false
  deriving DecidableEq

namespace Peer

variable (peer : Peer)

def afi : ℕ := peer.family.afiSafi.1

def safi : ℕ := peer.family.afiSafi.2

/-- `session.isAddPathSendEnabled` -/
def isAddPathSendEnabled (afi safi : ℕ) : Bool :=
  match afi, safi with
  | 1, 1 => peer.addPath.ipv4Unicast
  | 2, 1 => peer.addPath.ipv6Unicast
  | 1, 4 => peer.addPath.ipv4LabelUnicast
  | _, _ => false

def isIpUnicastFamily : Bool :=
  (peer.afi == 1 || peer.afi == 2) && (peer.safi == 1 || (peer.afi == 1 && peer.safi == 4))

def shouldSendAddPath : Bool :=
  peer.isIpUnicastFamily && peer.isAddPathSendEnabled peer.afi peer.safi

/-- `BIT_TEST` of the capability to send AS numbers of four bytes -/
def fourOctetAs : Bool := peer.localCapFlags &&& 0x04 != 0

/-- `BIT_TEST` of the capability to send IPv6 next hops for IPv4 routes -/
def extendedNextHopEncoding : Bool := peer.localCapFlags &&& 0x10 != 0

end Peer

end Bgp
