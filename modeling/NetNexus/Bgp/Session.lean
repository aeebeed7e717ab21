import NetNexus.Bgp.Message
import NetNexus.Stream.Loop
import NetNexus.Table.Table
import Mathlib.Data.Nat.Bitwise

/-!
# The receiving side of a BGP session

`handleBgpPacket` of `BgpSession`: the handling of each type of message and the loop over the
packet buffer. What a peer does to send its routes is left to a `RouteSender`.
-/

namespace Bgp

open Node (Buffer)

/-! ## Address families -/

/-- `BGP_ADDR_FAMILY` -/
inductive AddrFamily where
  | ipv4Unc
  | ipv6Unc
  | l2vpnEvpn
  | vpnv4
  | vpnv6
  | ipv4Mvpn
  | ipv6Mvpn
  | ipv4Qp
  | ipv6Qp
  | ipv4Flowspec
  | ipv6Flowspec
  | ipv4LabelUnicast
  | ipv6LabelUnicast
  | linkState
  | linkStateVpn
  | ipv4Multicast
  | ipv6Multicast
  deriving DecidableEq

def getAddrFamilyType (afi safi : ℕ) : Option AddrFamily :=
  match afi, safi with
  | 1, 1 => some .ipv4Unc
  | 1, 2 => some .ipv4Multicast
  | 1, 128 => some .vpnv4
  | 1, 4 => some .ipv4LabelUnicast
  | 1, 5 => some .ipv4Mvpn
  | 1, 133 => some .ipv4Flowspec
  | 1, 241 => some .ipv4Qp
  | 2, 1 => some .ipv6Unc
  | 2, 2 => some .ipv6Multicast
  | 2, 128 => some .vpnv6
  | 2, 4 => some .ipv6LabelUnicast
  | 2, 5 => some .ipv6Mvpn
  | 2, 133 => some .ipv6Flowspec
  | 2, 241 => some .ipv6Qp
  | 25, 70 => some .l2vpnEvpn
  | 16388, 71 => some .linkState
  | 16388, 72 => some .linkStateVpn
  | _, _ => none

/-- `getAfiAndSafi` -/
def AddrFamily.afiSafi : AddrFamily → ℕ × ℕ
  | .ipv4Unc => (1, 1)
  | .ipv6Unc => (2, 1)
  | .l2vpnEvpn => (25, 70)
  | .vpnv4 => (1, 128)
  | .vpnv6 => (2, 128)
  | .ipv4Mvpn => (1, 5)
  | .ipv6Mvpn => (2, 5)
  | .ipv4Qp => (1, 241)
  | .ipv6Qp => (2, 241)
  | .ipv4Flowspec => (1, 133)
  | .ipv6Flowspec => (2, 133)
  | .ipv4LabelUnicast => (1, 4)
  | .ipv6LabelUnicast => (2, 4)
  | .linkState => (16388, 71)
  | .linkStateVpn => (16388, 72)
  | .ipv4Multicast => (1, 2)
  | .ipv6Multicast => (2, 2)

/-- `getAddressFamilyFlag`, by `BGP_MULTIPROTOCOL_EXTENSIONS_FLAGS` -/
def getAddressFamilyFlag : AddrFamily → ℕ
  | .ipv4Unc => 0x001
  | .ipv6Unc => 0x002
  | .ipv4Mvpn => 0x004
  | .ipv6Mvpn => 0x008
  | .ipv4Qp => 0x010
  | .ipv6Qp => 0x020
  | .ipv4LabelUnicast => 0x040
  | .ipv6LabelUnicast => 0x080
  | .vpnv4 => 0x100
  | .vpnv6 => 0x200
  | .l2vpnEvpn => 0x400
  | _ => 0

/-- `BGP_CAP_FLAGS` of a capability. -/
def Capability.flag : Capability → ℕ
  | .multiprotocolExtensions _ _ => 0x01
  | .routeRefresh => 0x02
  | .fourOctetAs _ => 0x04
  | .bgpRole _ => 0x08
  | .extendedNextHopEncoding _ => 0x10
  | .addPath _ => 0x20
  | .other _ _ => 0

/-! ## State -/

/-- `BGP_PEER_STATE` -/
inductive PeerState where
  | idle
  | connect
  | active
  | openSent
  | openConfirm
  | established
  | noNeg
  deriving DecidableEq

/-- `BGP_PEER_TYPE` -/
inductive PeerType where
  | invalid
  | ibgp
  | ebgp
  deriving DecidableEq

/-- `BgpInstance.makeKey` -/
structure InstanceKey where
  vrfIndex : ℕ
  afi : ℕ
  safi : ℕ
  deriving DecidableEq

def InstanceKey.ofFamily (vrfIndex : ℕ) (family : AddrFamily) : InstanceKey :=
  ⟨vrfIndex, family.afiSafi.1, family.afiSafi.2⟩

/-- The fields of a session that the handling of messages reads or writes. `peers` are the peers
of the session with their states, by the instance they belong to, and `routes` is whatever
sending routes depends on: the stored routes and the streams in progress. -/
structure Session (ρ : Type*) where
  vrfIndex : ℕ
  localAs : Option ℤ
  socket : Bool
  sessState : PeerState
  peerCapFlags : ℕ
  peerAddrFamilyFlags : ℕ
  peerRole : ℕ
  peerType : PeerType
  peerAddPathMap : Table (Prod.fst : (ℕ × ℕ) × ℕ → ℕ × ℕ)
  peerExtendedNextHopFamilies : List NextHopTuple
  peers : List (InstanceKey × PeerState)
  routes : ρ

/-- How `peer.sendRoute()` of an established peer ends. -/
inductive Sending (ρ : Type*) where
  | sent (routes : ρ)
  /-- A withdraw stream was in progress and the peer has asked for a resync. -/
  | resync (routes : ρ)
  | threw (routes : ρ) (error : String)

/-- What the peers of each instance do to send their routes. -/
abbrev RouteSender (ρ : Type*) := ρ → InstanceKey → Sending ρ

namespace Session

variable {ρ : Type*}

/-- `BgpPeer.changePeerState`: a peer whose family was not negotiated only leaves that state
to become idle. -/
def nextPeerState (state peerState : PeerState) : PeerState :=
  if state ≠ .idle ∧ peerState = .noNeg then peerState else state

variable (s : Session ρ)

def changePeerState (key : InstanceKey) (state : PeerState) : Session ρ :=
  { s with peers := s.peers.map fun p =>
      if p.1 = key then (p.1, nextPeerState state p.2) else p }

def changeSessionFsmState (state : PeerState) : Session ρ :=
  { s with
    peers := s.peers.map fun p => (p.1, nextPeerState state p.2)
    sessState := state }

def resetPeer : Session ρ :=
  { s with peers := s.peers.map fun p => (p.1, .idle) }

def resetSession : Session ρ :=
  if s.socket then { s.changeSessionFsmState .idle with socket := false } else s

/-- What a handler leaves behind: the session, and the error if it throws. -/
abbrev Handled (ρ : Type*) := Session ρ × Option String

/-- `this.socket.write` without a socket -/
def nullSocketError : String := "Cannot read properties of null (reading 'write')"

/-- `parsedPacket.capabilities.forEach` on a packet that was not parsed -/
def noCapabilitiesError : String := "Cannot read properties of undefined (reading 'forEach')"

/-! ## OPEN -/

def setPeerAddPath (tuple : AddPathTuple) : Session ρ :=
  { s with
    peerAddPathMap := s.peerAddPathMap.upsert ((tuple.afi, tuple.safi), tuple.sendReceive) }

/-- `peerExtendedNextHopFamilies.add` -/
def addExtendedNextHop (tuple : NextHopTuple) : Session ρ :=
  if tuple ∈ s.peerExtendedNextHopFamilies then s
  else { s with peerExtendedNextHopFamilies := s.peerExtendedNextHopFamilies ++ [tuple] }

def applyCapability (cap : Capability) : Session ρ :=
  let s := { s with peerCapFlags := s.peerCapFlags ||| cap.flag }
  match cap with
  | .multiprotocolExtensions afi safi =>
    match getAddrFamilyType afi safi with
    | some family =>
      { s with peerAddrFamilyFlags := s.peerAddrFamilyFlags ||| getAddressFamilyFlag family }
    | none => s
  | .bgpRole role => { s with peerRole := role }
  | .extendedNextHopEncoding nextHops => nextHops.foldl addExtendedNextHop s
  | .addPath addPaths => addPaths.foldl setPeerAddPath s
  | .routeRefresh | .fourOctetAs _ | .other _ _ => s

/-- The families whose peer is not negotiated if the OPEN does not list them, with the VRF of the
instance that is looked up. Labeled unicast over IPv6 is not among them. -/
def negotiated : List (ℕ × AddrFamily) :=
  [(0, .ipv4Unc), (0, .ipv6Unc), (0, .ipv4Mvpn), (0, .ipv4LabelUnicast), (0, .ipv6Mvpn),
    (0, .ipv4Qp), (0, .ipv6Qp), (s.vrfIndex, .vpnv4), (s.vrfIndex, .vpnv6),
    (s.vrfIndex, .l2vpnEvpn)]

def refuseFamily (family : ℕ × AddrFamily) : Session ρ :=
  if s.peerAddrFamilyFlags &&& getAddressFamilyFlag family.2 ≠ 0 then s
  else s.changePeerState (.ofFamily family.1 family.2) .noNeg

def handleOpen (packet : Buffer) : Handled ρ :=
  match receivedOpen packet with
  | .error _ => (s, some noCapabilitiesError)
  | .ok parsed =>
    let s := parsed.capabilities.foldl applyCapability s
    let s := s.negotiated.foldl refuseFamily s
    if s.socket then
      let s := s.changeSessionFsmState .openConfirm
      ({ s with peerType := if s.localAs = some (parsed.asn : ℤ) then .ibgp else .ebgp }, none)
    else (s, some nullSocketError)

/-! ## Sending routes -/

variable (sender : RouteSender ρ) (s : Session ρ)

/-- `peer.sendRoute()` of the peer of the session in an instance. -/
def sendRoute (key : InstanceKey) : Handled ρ :=
  if (key, PeerState.established) ∈ s.peers then
    match sender s.routes key with
    | .sent routes => ({ s with routes }, none)
    | .resync routes => (({ s with routes } : Session ρ).resetSession, none)
    | .threw routes error => ({ s with routes }, some error)
  else (s, none)

def sendRoutes (s : Session ρ) : List InstanceKey → Handled ρ
  | [] => (s, none)
  | key :: keys =>
    match s.sendRoute sender key with
    | (s, some error) => (s, some error)
    | (s, none) => s.sendRoutes keys

def handleKeepAlive : Handled ρ :=
  if s.socket then
    if s.sessState = .openConfirm then
      let s := s.changeSessionFsmState .established
      s.sendRoutes sender (s.peers.map Prod.fst)
    else (s, none)
  else (s, some nullSocketError)

def handleNotification : Handled ρ :=
  ({ s.resetPeer with socket := false }, none)

/-- Only instances of VRF 0 are looked up. -/
def handleRouteRefresh (packet : Buffer) : Handled ρ :=
  match receivedRouteRefresh packet with
  | .error _ => (s, none)
  | .ok parsed => s.sendRoute sender ⟨0, parsed.afi, parsed.safi⟩

/-! ## The loop -/

def handleMessage (type : ℕ) (packet : Buffer) : Handled ρ :=
  match PacketType.ofCode type with
  | some .openMessage => s.handleOpen packet
  | some .keepalive => s.handleKeepAlive sender
  | some .notification => s.handleNotification
  | some .routeRefresh => s.handleRouteRefresh sender packet
  | some .update | none => (s, none)

/-- A packet as it is handed to processing. -/
structure Received where
  type : ℕ
  packet : Buffer
  deriving DecidableEq

/-- One round of the loop of `handleBgpPacket`. The length in the header is used as it is. -/
def receive : Stream.Decoder UInt8 (Session ρ) Received String where
  next s buffer :=
    if buffer.length < headLen then .wait
    else if buffer.length < lengthField buffer then .wait
    else
      let received : Received := ⟨typeField buffer, buffer.take (lengthField buffer)⟩
      match s.handleMessage sender received.type received.packet with
      | (s, none) => .take (lengthField buffer) s (some received)
      | (s, some error) => .fail s error

/-! ## Streams that the loop gets through -/

/-- One of the peers throws while they send their routes. A resync ends the sending of all
peers of the session. -/
def SendingThrows : ρ → List InstanceKey → Prop
  | _, [] => False
  | routes, key :: keys =>
    match sender routes key with
    | .sent routes => SendingThrows routes keys
    | .resync _ => False
    | .threw _ _ => True

/-- The instances whose peer becomes established together with the session. -/
def negotiatedPeers : List InstanceKey :=
  (s.peers.map Prod.fst).filter fun key => s.peers.any fun p => p.1 = key ∧ p.2 ≠ .noNeg

/-- The messages that cannot be handled in a state. -/
def Throws (type : ℕ) (packet : Buffer) : Prop :=
  match PacketType.ofCode type with
  | some .openMessage => s.socket = false ∨ ∀ parsed, receivedOpen packet ≠ .ok parsed
  | some .keepalive =>
    s.socket = false ∨ s.sessState = .openConfirm ∧ SendingThrows sender s.routes s.negotiatedPeers
  | some .routeRefresh =>
    ∃ parsed, receivedRouteRefresh packet = .ok parsed ∧
      (⟨0, parsed.afi, parsed.safi⟩, .established) ∈ s.peers ∧
      SendingThrows sender s.routes [⟨0, parsed.afi, parsed.safi⟩]
  | some .notification | some .update | none => False

/-- The stream is a sequence of messages, each with a length that covers its header and none that
cannot be handled when its turn comes, and perhaps an incomplete message at the end. -/
inductive Clean : Session ρ → Buffer → Prop where
  | incomplete {s : Session ρ} {buffer : Buffer}
      (h : buffer.length < headLen ∨ buffer.length < lengthField buffer) : Clean s buffer
  | message {s : Session ρ} {buffer : Buffer} (least : headLen ≤ lengthField buffer)
      (complete : lengthField buffer ≤ buffer.length)
      (handled : ¬ Throws sender s (typeField buffer) (buffer.take (lengthField buffer)))
      (rest : Clean
        (s.handleMessage sender (typeField buffer) (buffer.take (lengthField buffer))).1
        (buffer.drop (lengthField buffer))) : Clean s buffer

end Session

end Bgp
