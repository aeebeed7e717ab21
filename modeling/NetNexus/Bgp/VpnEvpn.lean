import NetNexus.Bgp.Attributes

/-!
# VPN and EVPN routes

The checks of `normalizeVpnRoute` and `normalizeEvpnRoute` and the NLRIs that are written from the
routes they let through. A normalized route holds numbers in range and parsed addresses.
-/

namespace Bgp

open Node Ip

/-! ## Values in normal form -/

/-- A number between two bounds. -/
abbrev Within (min max : ℕ) := { n : ℕ // min ≤ n ∧ n ≤ max }

theorem within_toNat {min max : ℕ} {n : ℤ} (h : (min : ℤ) ≤ n ∧ n ≤ max) :
    min ≤ n.toNat ∧ n.toNat ≤ max := by
  omega

/-- `integer`, with the default for an absent value -/
def integer (value : Option ℤ) (min max : ℕ) (name : String) (fallback : Option ℕ := none) :
    Except String (Within min max) :=
  match value.or (fallback.map Int.ofNat) with
  | some n =>
    if h : (min : ℤ) ≤ n ∧ n ≤ max then .ok ⟨n.toNat, within_toNat h⟩
    else .error (name ++ "范围为 " ++ toString min ++ " ~ " ++ toString max)
  | none => .error (name ++ "范围为 " ++ toString min ++ " ~ " ++ toString max)

/-- A route distinguisher by its two forms. -/
inductive Rd where
  | ipv4 (administrator : Vector UInt8 4) (assigned : ℕ)
  | asn (administrator assigned : ℕ)
  deriving DecidableEq

/-- The canonical text of an RD, with the numbers of an IPv4 address joined. -/
def Rd.text : Rd → String
  | .ipv4 administrator assigned => dotted administrator ++ ":" ++ toString assigned
  | .asn administrator assigned => toString administrator ++ ":" ++ toString assigned

/-- The number of bytes that a prefix touches. -/
def prefixSize (mask : ℕ) : ℕ := (mask + 7) / 8

section

variable (ipaddr : Ipaddr)

/-- The text of an RD as `normalizeRd` returns it, in which the library prints an address. -/
def Rd.print : Rd → String
  | .ipv4 administrator assigned => ipaddr.print (.ipv4 administrator) ++ ":" ++ toString assigned
  | .asn administrator assigned => toString administrator ++ ":" ++ toString assigned

/-- `address(value, 'RD', 'ipv4')` -/
def rdAddress (value : List Char) : Except String (Vector UInt8 4) :=
  match ipaddr.parse (String.ofList (trim value)) with
  | some (.ipv4 bytes) => .ok bytes
  | _ => .error "RD请输入有效的IPv4地址"

/-- `normalizeRd`. The RD is returned as its parts, `Rd.print` is its text. -/
def normalizeRd (value : Option String) : Except String Rd :=
  match (trim (value.getD "0:0").toList).splitOn ':' with
  | [first, second] =>
    match decimal? second with
    | none => .error "RD格式应为 ASN:数值或IPv4:数值"
    | some assigned =>
      if '.' ∈ first then do
        let administrator ← rdAddress ipaddr first
        return .ipv4 administrator (← integer (some assigned) 0 0xffff "RD数值").1
      else match decimal? first with
        | none => .error "RD格式应为 ASN:数值或IPv4:数值"
        | some administrator => do
          let administrator ← integer (some administrator) 0 0xffffffff "RD ASN"
          let max := if administrator.1 ≤ 0xffff then 0xffffffff else 0xffff
          return .asn administrator.1 (← integer (some assigned) 0 max "RD数值").1
  | _ => .error "RD格式应为 ASN:数值或IPv4:数值"

/-- The bytes that `text` stands for if it has that many, perhaps set apart by `:` or `-`. That
many pairs of digits decode to that many bytes. -/
def hexOctets (text : String) (bytes : ℕ) (name : String) : Except String (Vector UInt8 bytes) :=
  let compact := (trim text.toList).filter fun c => c != ':' && c != '-'
  if h : compact.length = 2 * bytes ∧ (compact.all fun c => (hexValue c).isSome) ∧
      (hexDecode compact).length = bytes then
    .ok ⟨(hexDecode compact).toArray, h.2.2⟩
  else .error (name ++ "必须为" ++ toString bytes ++ "字节十六进制")

/-- `normalizePrefix`. The network address is returned, of which the source keeps the text. -/
def normalizePrefix (ip : String) (mask : ℤ) (kind : Option Kind) :
    Except String (Address × ℕ) := do
  let parsed ← parseAddress ipaddr ip "路由前缀" kind
  let prefixLength ← integer (some mask) 0 parsed.kind.bits "路由前缀长度"
  let network ← ipaddr.networkAddressFromCIDR parsed.kind
    (ipaddr.print parsed ++ "/" ++ toString prefixLength.1)
  return (network, prefixLength.1)

/-! ## VPN -/

/-- A route that `normalizeVpnRoute` has let through. The source keeps the text of the address. -/
structure VpnRoute where
  ip : Address
  mask : ℕ
  rd : Rd
  label : Within 0 0xfffff
  pathId : Within 0 0xffffffff

variable (route : Route)

/-- `normalizeVpnRoute` -/
def normalizeVpnRoute (afi : ℕ) : Except String VpnRoute := do
  if afi ≠ 1 ∧ afi ≠ 2 then .error "VPN地址族无效"
  else
    let (ip, mask) ← normalizePrefix ipaddr route.ip route.mask
      (some (if afi = 1 then .ipv4 else .ipv6))
    let rd ← normalizeRd ipaddr route.rd
    let label ← integer route.label 0 0xfffff "MPLS Label" (some 16)
    let pathId ← integer route.pathId 0 0xffffffff "Path ID" (some 0)
    return { ip, mask, rd, label, pathId }

/-- The path identifier in front of an NLRI if it is asked for. -/
def optionalPathId (includePathId : Bool) (pathId : ℕ) : Buffer :=
  if includePathId then uint32be pathId else []

/-- `encodeVpnNlri`. The text of the prefix is parsed again. A withdrawal holds a compatibility
field in place of the label. -/
def encodeVpnNlri (afi : ℕ) (withdraw : Bool) (includePathId : Bool := false) :
    Except String Buffer := do
  let route ← normalizeVpnRoute ipaddr route afi
  let address ← parseAddress ipaddr (ipaddr.print route.ip) "VPN Prefix"
  let rd ← rdStringToBytes ipaddr (route.rd.print ipaddr)
  return optionalPathId includePathId route.pathId.1 ++ UInt8.ofNat (24 + 64 + route.mask) ::
    (if withdraw then [0x80, 0, 0] else uintBE 3 (route.label.1 * 16 + 1)) ++ rd ++
      address.toByteArray.take (prefixSize route.mask)

/-! ## EVPN -/

/-- A label field of three bytes, a VNI or a label in its first 20 bits. -/
abbrev LabelField := Within 0 0xffffff

/-- The fields of a route by its type. The source keeps the texts of the addresses. -/
inductive EvpnFields where
  | autoDiscovery (esi : Vector UInt8 10) (tag : Within 0 0xffffffff) (label : LabelField)
  | macIp (esi : Vector UInt8 10) (tag : Within 0 0xffffffff) (mac : Vector UInt8 6)
      (ip : Option Address) (label : LabelField) (label2 : Option LabelField)
  | inclusiveMulticast (tag : Within 0 0xffffffff) (originatingRouterIp : Address)
  | ethernetSegment (esi : Vector UInt8 10) (originatingRouterIp : Address)
  | ipPrefix (esi : Vector UInt8 10) (tag : Within 0 0xffffffff) (mask : ℕ)
      (ip gateway : Address) (label : LabelField)

/-- A route that `normalizeEvpnRoute` has let through. -/
structure EvpnRoute where
  rd : Rd
  fields : EvpnFields
  pathId : Option (Within 0 0xffffffff) := none

/-- A label of 20 bits in its field. -/
def LabelField.ofLabel (label : Within 0 0xfffff) : LabelField := ⟨label.1 * 16, by omega⟩

/-- The label or the VNI of a route. -/
def firstLabel (encapsulation : Encapsulation) : Except String LabelField :=
  match encapsulation with
  | .vxlan => integer route.vni 0 0xffffff "VNI" (some 1000)
  | .mpls | .srv6 => LabelField.ofLabel <$> integer route.label 0 0xfffff "MPLS Label" (some 16)

/-- The second label or VNI, which is written only if it is given. -/
def secondLabel (encapsulation : Encapsulation) :
    Except String (Option LabelField) :=
  match encapsulation with
  | .vxlan => route.vni2.mapM fun vni => integer (some vni) 0 0xffffff "VNI 2"
  | .mpls | .srv6 => route.label2.mapM fun label =>
      LabelField.ofLabel <$> integer (some label) 0 0xfffff "MPLS Label 2"

/-- The checks on the RD, the ESI and the label of an Ethernet A-D route for a whole segment, by
`isEvpnPerEs`. -/
def checkPerEs (rd : Rd) (esi : Vector UInt8 10) (label : LabelField) : Except String Unit :=
  match rd with
  | .asn _ _ => .error "EVPN Type 1 per-ES的RD必须为IPv4:数值"
  | .ipv4 _ assigned =>
    if assigned = 0 then .error "EVPN Type 1 per-ES的RD数值不能为0"
    else if esi.toList.all (· == 0) then .error "EVPN Type 1 per-ES的ESI不能为零"
    else if label.1 ≠ 0 then .error "EVPN Type 1 per-ES的NLRI Label必须为0"
    else .ok ()

/-- The checks on an Ethernet segment route. The route target of its import is taken from the ESI
if the type of the ESI has one. -/
def checkEthernetSegment (rd : Rd) (esi : Vector UInt8 10) :
    Except String Unit :=
  match rd with
  | .asn _ _ => .error "EVPN Type 4的RD必须为IPv4:数值（Type 1）"
  | .ipv4 _ _ =>
    if esi.toList.all (· == 0) then .error "EVPN Type 4的ESI不能为零"
    else if route.esImportRt = "" then .ok ()
    else do
      let _ ← hexOctets route.esImportRt 6 "ES-Import RT"
      return ()

/-- What `normalizeEvpnRoute` does for an IP prefix route: the kind of the gateway is that of the
prefix, and only one of the ESI and the gateway may be given. -/
def ipPrefixFields (esi : Vector UInt8 10) (tag : Within 0 0xffffffff) (label : LabelField) :
    Except String EvpnFields := do
  let (ip, mask) ← normalizePrefix ipaddr route.ip route.mask none
  let kind := (← parseAddress ipaddr (ipaddr.print ip) "IP Prefix").kind
  let gateway ← parseAddress ipaddr
    (orElseText route.gatewayIp (if kind = .ipv4 then "0.0.0.0" else "::")) "Gateway IP" (some kind)
  if esi.toList.any (· != 0) then
    let parsed ← parseAddress ipaddr (ipaddr.print gateway) "Gateway IP"
    if parsed.toByteArray.any (· != 0) then .error "EVPN Type 5的ESI和Gateway IP不能同时非零"
    else return .ipPrefix esi tag mask ip gateway label
  else return .ipPrefix esi tag mask ip gateway label

def zeroEsi : String := "00:00:00:00:00:00:00:00:00:00"

/-- The fields of a route of a type between 1 and 5. -/
def evpnFields (encapsulation : Encapsulation) (rd : Rd) :
    Except String EvpnFields := do
  let readEsi := hexOctets (route.esi.getD zeroEsi) 10 "ESI"
  let readTag := integer route.ethernetTagId 0 0xffffffff "Ethernet Tag ID" (some 0)
  match route.routeType with
  | 1 =>
    let esi ← readEsi
    let tag ← readTag
    let label ← firstLabel route encapsulation
    if tag.1 = 0xffffffff then checkPerEs rd esi label
    return .autoDiscovery esi tag label
  | 2 =>
    let esi ← readEsi
    let tag ← readTag
    let label ← firstLabel route encapsulation
    let label2 ← secondLabel route encapsulation
    let mac ← hexOctets (route.macAddress.getD "") 6 "MAC"
    let ip := route.ipAddress.getD route.ip
    let ip ← if ip = "" then .ok none else some <$> parseAddress ipaddr ip "IP Address"
    return .macIp esi tag mac ip label label2
  | 3 =>
    let tag ← readTag
    -- the label is checked although the NLRI has none
    if encapsulation ≠ .srv6 then
      let _ ← firstLabel route encapsulation
    let origin ← parseAddress ipaddr route.originatingRouterIp "Originating Router IP"
    return .inclusiveMulticast tag origin
  | 4 =>
    let esi ← readEsi
    let origin ← parseAddress ipaddr route.originatingRouterIp "Originating Router IP"
    checkEthernetSegment route rd esi
    return .ethernetSegment esi origin
  | _ =>
    let esi ← readEsi
    let tag ← readTag
    ipPrefixFields ipaddr route esi tag (← firstLabel route encapsulation)

/-- `normalizeEvpnRoute` -/
def normalizeEvpnRoute : Except String EvpnRoute := do
  let _ ← integer (some route.routeType) 1 5 "EVPN路由类型"
  let rd ← normalizeRd ipaddr route.rd
  let fields ← evpnFields ipaddr route (route.encapsulationType.getD .mpls) rd
  let pathId ← route.pathId.mapM fun pathId =>
    integer (some pathId) 0 0xffffffff "Path ID" (some 0)
  return { rd, fields, pathId }

/-! ### The NLRI -/

/-- An address behind its length in bits. -/
def sizedAddress (address : Address) : Buffer :=
  UInt8.ofNat (address.toByteArray.length * 8) :: address.toByteArray

/-- The type of a route on the wire. -/
def EvpnFields.routeType : EvpnFields → UInt8
  | .autoDiscovery .. => 1
  | .macIp .. => 2
  | .inclusiveMulticast .. => 3
  | .ethernetSegment .. => 4
  | .ipPrefix .. => 5

/-- The fields on the wire, by the addresses that their texts stand for. -/
def EvpnFields.bytes : EvpnFields → Buffer
  | .autoDiscovery esi tag label => esi.toList ++ uint32be tag.1 ++ uintBE 3 label.1
  | .macIp esi tag mac ip label label2 =>
    esi.toList ++ uint32be tag.1 ++ 48 :: mac.toList ++ ((ip.map sizedAddress).getD [0]) ++
      uintBE 3 label.1 ++ ((label2.map fun label => uintBE 3 label.1).getD [])
  | .inclusiveMulticast tag origin => uint32be tag.1 ++ sizedAddress origin
  | .ethernetSegment esi origin => esi.toList ++ sizedAddress origin
  | .ipPrefix esi tag mask ip gateway label => esi.toList ++ uint32be tag.1 ++
      UInt8.ofNat mask :: ip.toByteArray ++ gateway.toByteArray ++ uintBE 3 label.1

/-- The address that the text of an address stands for, by `ipBytes` of `encodeEvpnNlri`. -/
def reread (address : Address) : Except String Address :=
  parseAddress ipaddr (ipaddr.print address) "EVPN IP"

/-- The fields with the addresses parsed again. -/
def EvpnFields.reread : EvpnFields → Except String EvpnFields
  | .macIp esi tag mac ip label label2 => do
    return .macIp esi tag mac (← ip.mapM (Bgp.reread ipaddr)) label label2
  | .inclusiveMulticast tag origin => do
    return .inclusiveMulticast tag (← Bgp.reread ipaddr origin)
  | .ethernetSegment esi origin => do return .ethernetSegment esi (← Bgp.reread ipaddr origin)
  | .ipPrefix esi tag mask ip gateway label => do
    return .ipPrefix esi tag mask (← Bgp.reread ipaddr ip) (← Bgp.reread ipaddr gateway) label
  | .autoDiscovery esi tag label => .ok (.autoDiscovery esi tag label)

/-- `encodeEvpnNlri` -/
def encodeEvpnNlri (includePathId : Bool := false) : Except String Buffer := do
  let route ← normalizeEvpnRoute ipaddr route
  let rd ← rdStringToBytes ipaddr (route.rd.print ipaddr)
  let fields ← route.fields.reread ipaddr
  let value := rd ++ fields.bytes
  return optionalPathId includePathId ((route.pathId.map Subtype.val).getD 0) ++
    fields.routeType :: UInt8.ofNat value.length :: value

end

end Bgp
