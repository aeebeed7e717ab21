import NetNexus.Bgp.Update

/-!
# Building an OPEN

`buildOpenMsg` of `BgpSession`, and what two sessions make of the OPENs that they build for each
other.
-/

namespace Bgp

open Node Ip

/-- `CommonUtils.BIT_TEST` -/
def bitTest (flags flag : ℕ) : Bool := flags &&& flag != 0

/-- `BGP_ROLE_TYPE` -/
inductive Role where
  | provider
  | rs
  | rsClient
  | customer
  | peer
  | invalid
  deriving DecidableEq

def Role.code : Role → ℕ
  | .provider => 0
  | .rs => 1
  | .rsClient => 2
  | .customer => 3
  | .peer => 4
  | .invalid => 255

/-- `BGP_ADD_PATH_TYPE` -/
inductive AddPathType where
  | receiveOnly
  | sendOnly
  | sendReceive
  deriving DecidableEq

def AddPathType.code : AddPathType → ℕ
  | .receiveOnly => 1
  | .sendOnly => 2
  | .sendReceive => 3

/-- The local side of a session, as far as it is told to the peer. The keys of `localAddPathMap`
are the AFI and SAFI of a family. -/
structure OpenConfig where
  localAs : UInt32
  holdTime : ℕ
  routerId : String
  localCapFlags : ℕ
  localAddrFamilyFlags : ℕ
  localRole : Role
  localAddPathMap : Table (Prod.fst : AddrFamily × AddPathType → AddrFamily)
  openCapCustom : String

def buildBgpCapability (optType optLength capType capLength : ℕ) (capInfo : Buffer) : Buffer :=
  [UInt8.ofNat optType, UInt8.ofNat optLength, UInt8.ofNat capType, UInt8.ofNat capLength] ++
    capInfo

namespace OpenConfig

variable (config : OpenConfig)

def hasCapability (flag : ℕ) : Bool := bitTest config.localCapFlags flag

def hasFamily (family : AddrFamily) : Bool :=
  bitTest config.localAddrFamilyFlags (getAddressFamilyFlag family)

/-! ## Optional parameters -/

/-- The capability of one of the families that are listed first. -/
def buildVpnFamily (family : AddrFamily) : Buffer :=
  if config.hasFamily family then
    buildBgpCapability 2 0x06 0x01 0x04
      (uint16be family.afiSafi.1 ++ [0x00, UInt8.ofNat family.afiSafi.2])
  else []

def buildFamily (family : AddrFamily) : Buffer :=
  if config.hasFamily family then
    buildBgpCapability 2 0x06 0x01 0x04 (uint16be family.afiSafi.1 ++ uint16be family.afiSafi.2)
  else []

/-- Labeled unicast over IPv6 is not told to the peer. -/
def buildFamilies : Buffer :=
  if config.hasCapability 0x01 then
    [.vpnv4, .vpnv6, .l2vpnEvpn].flatMap config.buildVpnFamily ++
      [.ipv4Unc, .ipv4LabelUnicast, .ipv6Unc, .ipv4Mvpn, .ipv6Mvpn, .ipv4Qp, .ipv6Qp].flatMap
        config.buildFamily
  else []

def buildRouteRefresh : Buffer :=
  if config.hasCapability 0x02 then buildBgpCapability 2 0x02 0x02 0x00 [] else []

def buildFourOctetAs : Buffer :=
  if config.hasCapability 0x04 then
    buildBgpCapability 2 0x06 0x41 0x04 (uint32be config.localAs.toNat)
  else []

def buildRole : Buffer :=
  if config.hasCapability 0x08 then
    buildBgpCapability 2 0x03 0x09 0x01 [UInt8.ofNat config.localRole.code]
  else []

/-- A capability that lists tuples is left out if there are none. -/
def buildTuples (code : ℕ) (capInfo : Buffer) : Buffer :=
  if 0 < capInfo.length then
    buildBgpCapability 2 (capInfo.length + 2) code capInfo.length capInfo
  else []

def buildAddPath : Buffer :=
  if config.hasCapability 0x20 then
    buildTuples 0x45 (config.localAddPathMap.rows.flatMap fun (family, mode) =>
      uint16be family.afiSafi.1 ++ [UInt8.ofNat family.afiSafi.2, UInt8.ofNat mode.code])
  else []

/-- The families over IPv4 that may have a next hop over IPv6. -/
def extNextHopFamilies : List AddrFamily :=
  [.ipv4Unc, .ipv4LabelUnicast, .ipv4Mvpn, .ipv4Qp, .vpnv4].filter config.hasFamily

def buildExtendedNextHop : Buffer :=
  if config.hasCapability 0x10 then
    buildTuples 0x05 (config.extNextHopFamilies.flatMap fun family =>
      uint16be 1 ++ uint16be family.afiSafi.2 ++ uint16be 2)
  else []

/-- The bytes that the user adds, whatever they are. -/
def customParams : Buffer :=
  if trim config.openCapCustom.toList ≠ [] then processCustomPkt config.openCapCustom else []

def buildOpenMessageOptionalParams : Buffer :=
  config.buildFamilies ++ config.buildRouteRefresh ++ config.buildFourOctetAs ++
    config.buildRole ++ config.buildAddPath ++ config.buildExtendedNextHop ++ config.customParams

/-! ## The message -/

variable (ipaddr : Ipaddr)

def buildOpenMsg : Except String Buffer := do
  let routerId ← ipaddr.ipToBytes config.routerId
  let openHeadMsg :=
    [4] ++ uint16be config.localAs.toNat ++ uint16be config.holdTime ++ routerId
  let optParams := config.buildOpenMessageOptionalParams
  -- `writeUInt8` throws
  if 255 < optParams.length then .error "ERR_OUT_OF_RANGE"
  else do
    let header ← buildBgpMessageHeader (headLen + openHeadMsg.length + (optParams.length + 1)) 1
    return header ++ openHeadMsg ++ (UInt8.ofNat optParams.length :: optParams)

/-! ## What is told -/

def addPaths : List AddPathTuple :=
  config.localAddPathMap.rows.map fun (family, mode) =>
    ⟨family.afiSafi.1, family.afiSafi.2, mode.code⟩

def nextHops : List NextHopTuple :=
  config.extNextHopFamilies.map fun family => ⟨1, family.afiSafi.2, 2⟩

/-- The families that can be told to a peer. -/
def families : List AddrFamily :=
  [.vpnv4, .vpnv6, .l2vpnEvpn, .ipv4Unc, .ipv4LabelUnicast, .ipv6Unc, .ipv4Mvpn, .ipv6Mvpn,
    .ipv4Qp, .ipv6Qp]

/-- The capabilities that the configuration asks for, in the order of the OPEN. -/
def capabilities : List Capability :=
  (if config.hasCapability 0x01 then
    (families.filter config.hasFamily).map fun family =>
      .multiprotocolExtensions family.afiSafi.1 family.afiSafi.2
    else []) ++
  (if config.hasCapability 0x02 then [.routeRefresh] else []) ++
  (if config.hasCapability 0x04 then [.fourOctetAs config.localAs.toNat] else []) ++
  (if config.hasCapability 0x08 then [.bgpRole config.localRole.code] else []) ++
  (if config.hasCapability 0x20 ∧ config.addPaths ≠ [] then [.addPath config.addPaths] else []) ++
  (if config.hasCapability 0x10 ∧ config.nextHops ≠ [] then
    [.extendedNextHopEncoding config.nextHops] else [])

/-- The message is read as what the configuration asks for, followed by the capabilities among
the bytes of the user. -/
def ReadAs (packet : Buffer) : Prop :=
  ∃ parsed custom, receivedOpen packet = .ok parsed ∧
    parsed.version = 4 ∧ parsed.holdTime = config.holdTime ∧
    (∃ a b c d, ipaddr.parse config.routerId = some (.ipv4 #v[a, b, c, d]) ∧
      parsed.routerId = (a.toNat, b.toNat, c.toNat, d.toNat)) ∧
    parseParameters false config.customParams.length config.customParams = .ok custom ∧
    parsed.capabilities = config.capabilities ++ custom

end OpenConfig

/-- The configuration survives in the fields of an OPEN, and the bytes of the user are optional
parameters that fit behind the others. -/
structure OpenConfig.Tellable (ipaddr : Ipaddr) (config : OpenConfig) : Prop where
  holdTime : config.holdTime < 2 ^ 16
  routerId : ∃ bytes, ipaddr.parse config.routerId = some (.ipv4 bytes)
  fits : config.buildOpenMessageOptionalParams.length ≤ 255
  custom : ∃ capabilities,
    parseParameters false config.customParams.length config.customParams = .ok capabilities

/-- Comparing an AS number with the low bytes of another one tells whether they are the same, in
both directions. -/
def AsNumbersTell (a b : UInt32) : Prop :=
  a.toNat < 2 ^ 16 ∧ b.toNat < 2 ^ 16 ∨
    a ≠ b ∧ a.toNat ≠ b.toNat % 2 ^ 16 ∧ b.toNat ≠ a.toNat % 2 ^ 16

/-- A session of the configuration that has a connection. -/
structure Session.Configured {ρ : Type*} (s : Session ρ) (config : OpenConfig) : Prop where
  localAs : s.localAs = some (config.localAs.toNat : ℤ)
  socket : s.socket = true

/-- Each of two sessions reads the OPEN of the other as it was meant, and both come to the right
type of peer. -/
def OpensAgree (ipaddr : Ipaddr) (ρ : Type*) (a b : OpenConfig) : Prop :=
  ∃ packetA packetB, a.buildOpenMsg ipaddr = .ok packetA ∧ b.buildOpenMsg ipaddr = .ok packetB ∧
    a.ReadAs ipaddr packetA ∧ b.ReadAs ipaddr packetB ∧
    ∀ s t : Session ρ, s.Configured a → t.Configured b →
      (s.handleOpen packetB).2 = none ∧ (t.handleOpen packetA).2 = none ∧
      ((s.handleOpen packetB).1.peerType = .ibgp ↔ a.localAs = b.localAs) ∧
      (t.handleOpen packetA).1.peerType = (s.handleOpen packetB).1.peerType

end Bgp
