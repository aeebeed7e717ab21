import NetNexus.Node.Bytes

/-!
# BGP messages

The header of a message and the bodies of OPEN and ROUTE-REFRESH, as `parseBgpPacket` reads them.
-/

namespace Bgp

open Node (Buffer)

/-- `BGP_HEAD_LEN` -/
def headLen : ℕ := 19

/-- `BGP_MARKER_LEN` -/
def markerLen : ℕ := 16

/-- `BGP_PACKET_TYPE` -/
inductive PacketType where
  | openMessage
  | update
  | notification
  | keepalive
  | routeRefresh
  deriving DecidableEq

def PacketType.ofCode : ℕ → Option PacketType
  | 1 => some .openMessage
  | 2 => some .update
  | 3 => some .notification
  | 4 => some .keepalive
  | 5 => some .routeRefresh
  | _ => none

/-- `MINIMUM_MESSAGE_LENGTHS`, where an unknown type needs its header. -/
def minimumLength : Option PacketType → ℕ
  | some .openMessage => 29
  | some .update => 23
  | some .notification => 21
  | some .keepalive => 19
  | some .routeRefresh => 23
  | none => headLen

def lengthField (buffer : Buffer) : ℕ := Node.ofBytes ((buffer.drop markerLen).take 2)

def typeField (buffer : Buffer) : ℕ := Node.ofBytes ((buffer.drop (markerLen + 2)).take 1)

/-- The checks of `parseBgpPacket` on the header: the type of the body to read. -/
def parsePacketHeader (buffer : Buffer) : Except String PacketType :=
  if buffer.length < headLen then .error "Invalid buffer or buffer too small"
  else if ¬ (buffer.take markerLen).all (· == 0xff) then .error "Invalid BGP marker"
  else
    let length := lengthField buffer
    let type := typeField buffer
    if length < minimumLength (PacketType.ofCode type) ∨ length ≠ buffer.length then
      .error s!"Invalid BGP message length {length} for type {type}: got {buffer.length}"
    else match PacketType.ofCode type with
      | some .keepalive =>
        if length ≠ headLen then .error "BGP KEEPALIVE must contain only its header"
        else .ok .keepalive
      | some known => .ok known
      | none => .error s!"Unknown packet type: {type}"

/-! ## OPEN -/

/-- An (AFI, SAFI, next hop AFI) tuple of the extended next hop capability. -/
structure NextHopTuple where
  afi : ℕ
  safi : ℕ
  ipType : ℕ
  deriving DecidableEq

/-- A family of the ADD-PATH capability. -/
structure AddPathTuple where
  afi : ℕ
  safi : ℕ
  sendReceive : ℕ
  deriving DecidableEq

/-- A capability of an OPEN, by `BGP_OPEN_CAP_CODE`. -/
inductive Capability where
  | multiprotocolExtensions (afi safi : ℕ)
  | routeRefresh
  | extendedNextHopEncoding (nextHops : List NextHopTuple)
  | bgpRole (role : ℕ)
  | fourOctetAs (as4 : ℕ)
  | addPath (addPaths : List AddPathTuple)
  | other (code length : ℕ)
  deriving DecidableEq

/-- What is read of an OPEN. -/
structure OpenMessage where
  version : ℕ
  asn : ℕ
  holdTime : ℕ
  routerId : ℕ × ℕ × ℕ × ℕ
  optParamLen : ℕ
  capabilities : List Capability
  deriving DecidableEq

/-- The length rules of the capabilities that are read. -/
def capabilityLengthValid (code length : ℕ) : Bool :=
  match code with
  | 1 | 65 => length == 4
  | 2 => length == 0
  | 9 => length == 1
  | 5 => length != 0 && length % 6 == 0
  | 69 => length != 0 && length % 4 == 0
  | _ => true

def parseNextHops : Buffer → List NextHopTuple
  | a₁ :: a₀ :: s₁ :: s₀ :: i₁ :: i₀ :: rest =>
    ⟨Node.ofBytes [a₁, a₀], Node.ofBytes [s₁, s₀], Node.ofBytes [i₁, i₀]⟩ :: parseNextHops rest
  | _ => []

def parseAddPaths : Buffer → List AddPathTuple
  | a₁ :: a₀ :: s :: m :: rest => ⟨Node.ofBytes [a₁, a₀], s.toNat, m.toNat⟩ :: parseAddPaths rest
  | _ => []

/-- The value of a capability whose length is valid. -/
def parseCapability (code : ℕ) (value : Buffer) : Capability :=
  match code with
  | 1 => .multiprotocolExtensions (Node.ofBytes (value.take 2))
      (Node.ofBytes ((value.drop 3).take 1))
  | 2 => .routeRefresh
  | 5 => .extendedNextHopEncoding (parseNextHops value)
  | 9 => .bgpRole (Node.ofBytes (value.take 1))
  | 65 => .fourOctetAs (Node.ofBytes (value.take 4))
  | 69 => .addPath (parseAddPaths value)
  | _ => .other code value.length

/-- The loop over the capabilities of one optional parameter. Every round takes two bytes or
more, so `fuel` is the length of the parameter. -/
def parseCapabilities : ℕ → Buffer → Except String (List Capability)
  | 0, _ => .ok []
  | _ + 1, [] => .ok []
  | _ + 1, [_] => .error "BGP OPEN capability header is truncated"
  | fuel + 1, code :: length :: rest =>
    if rest.length < length.toNat then .error "BGP OPEN capability value is truncated"
    else if ¬ capabilityLengthValid code.toNat length.toNat then
      .error s!"BGP OPEN capability {code.toNat} has invalid length {length.toNat}"
    else do
      let others ← parseCapabilities fuel (rest.drop length.toNat)
      return parseCapability code.toNat (rest.take length.toNat) :: others

/-- The loop over the optional parameters, with lengths of two bytes if they are extended. Only
parameters of type 2 hold capabilities. -/
def parseParameters (extended : Bool) : ℕ → Buffer → Except String (List Capability)
  | 0, _ => .ok []
  | _ + 1, [] => .ok []
  | fuel + 1, paramType :: rest =>
    let lengthBytes := if extended then 2 else 1
    if rest.length < lengthBytes then
      .error "BGP OPEN optional parameter header is truncated"
    else
      let paramLen := Node.ofBytes (rest.take lengthBytes)
      let value := rest.drop lengthBytes
      if value.length < paramLen then .error "BGP OPEN optional parameter value is truncated"
      else do
        let capabilities ←
          if paramType = 2 then parseCapabilities paramLen (value.take paramLen) else .ok []
        let others ← parseParameters extended fuel (value.drop paramLen)
        return capabilities ++ others

/-- `parseOpenMessage`, on a buffer that has passed the checks of the header. -/
def parseOpenMessage (buffer : Buffer) : Except String OpenMessage :=
  match buffer.drop headLen with
  | version :: a₁ :: a₀ :: h₁ :: h₀ :: r₀ :: r₁ :: r₂ :: r₃ :: length :: rest =>
    let extended := length != 0 && rest.head? == some 255
    if extended ∧ rest.length < 3 then
      .error "BGP OPEN extended optional parameter length is truncated"
    else
      let optParamLen :=
        if extended then Node.ofBytes ((rest.drop 1).take 2) else length.toNat
      let params := if extended then rest.drop 3 else rest
      if params.length ≠ optParamLen then
        .error "BGP OPEN optional parameter length is inconsistent"
      else if version ≠ 4 then .error "Unsupported BGP OPEN version"
      else do
        let capabilities ← parseParameters extended params.length params
        return {
          version := version.toNat
          asn := Node.ofBytes [a₁, a₀]
          holdTime := Node.ofBytes [h₁, h₀]
          routerId := (r₀.toNat, r₁.toNat, r₂.toNat, r₃.toNat)
          optParamLen
          capabilities }
  | _ => .error "ERR_OUT_OF_RANGE"

/-! ## ROUTE-REFRESH -/

/-- What is read of a ROUTE-REFRESH. -/
structure RouteRefreshMessage where
  afi : ℕ
  subType : ℕ
  safi : ℕ
  deriving DecidableEq

def parseRouteRefreshMessage (buffer : Buffer) : Except String RouteRefreshMessage :=
  match buffer.drop headLen with
  | a₁ :: a₀ :: subType :: safi :: _ =>
    .ok { afi := Node.ofBytes [a₁, a₀], subType := subType.toNat, safi := safi.toNat }
  | _ => .error "ERR_OUT_OF_RANGE"

/-- What `parseBgpPacket` reads from a packet that is received as an OPEN. -/
def receivedOpen (packet : Buffer) : Except String OpenMessage := do
  match ← parsePacketHeader packet with
  | .openMessage => parseOpenMessage packet
  | _ => .error "not an OPEN"

/-- What `parseBgpPacket` reads from a packet that is received as a ROUTE-REFRESH. -/
def receivedRouteRefresh (packet : Buffer) : Except String RouteRefreshMessage := do
  match ← parsePacketHeader packet with
  | .routeRefresh => parseRouteRefreshMessage packet
  | _ => .error "not a ROUTE-REFRESH"

end Bgp
