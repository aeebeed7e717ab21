import NetNexus.Bgp.VpnEvpn

/-!
# Reading one NLRI

The parsers of the address families, over the bytes from their position on. Addresses and RDs are
kept as the bytes that are printed. The components of FlowSpec NLRIs and the TLVs of link state
NLRIs are not looked into, so that these NLRIs have only the errors of their framing.
-/

namespace Bgp

open Node Ip

/-! ## What is read -/

/-- An entry of a label stack. -/
structure MplsLabel where
  label : ℕ
  exp : ℕ
  bottom : Bool
  deriving DecidableEq

/-- An address of a multicast EVPN route behind the length that is given for it. -/
structure SizedIp where
  length : Option ℕ := none
  ip : Option Buffer := none
  deriving DecidableEq

/-- The fields of an EVPN route. A label is its field of 24 bits, and the route key of a Leaf A-D
route is kept as its bytes. -/
structure EvpnNlri where
  routeType : ℕ
  rd : Option Buffer
  esi : Option Buffer := none
  ethernetTagId : Option ℕ := none
  macLength : Option ℕ := none
  macAddress : Option Buffer := none
  ipLength : Option ℕ := none
  ipAddress : Option Buffer := none
  originatingRouterIp : Option Buffer := none
  prefixLength : Option ℕ := none
  ipPrefix : Option Buffer := none
  gatewayIp : Option Buffer := none
  labels : List ℕ := []
  source : SizedIp := {}
  group : SizedIp := {}
  originator : SizedIp := {}
  reserved : Option ℕ := none
  maximumResponseTime : Option ℕ := none
  flags : Option ℕ := none
  regionId : Buffer := []
  routeKey : Buffer := []
  deriving DecidableEq

/-- An NLRI by the parser that has read it. -/
inductive Nlri where
  | ipPrefix (length : ℕ) (address : Buffer)
  | labeled (labels : List MplsLabel) (length : ℕ) (address : Buffer)
  | labeledWithdrawal (compatibilityField : Buffer) (length : ℕ) (address : Buffer)
  | vpn (rd : Option Buffer) (labels : List MplsLabel) (length : ℕ) (address : Buffer)
  | vpnWithdrawal (rd : Option Buffer) (compatibilityField : Buffer) (length : ℕ)
      (address : Buffer)
  | evpn (fields : EvpnNlri)
  | qp (dqpn : Option (ℕ × ℕ)) (length : ℕ) (address : Buffer)
  | invalidQp
  /-- The NLRI of a family whose routes are not interpreted. -/
  | fallback (routeType length : ℕ) (value : Buffer)
  | flowSpec (length : ℕ) (value : Buffer)
  | bgpLs (nlriType : Option ℕ) (rd : Option Buffer) (value : Buffer)
  deriving DecidableEq

/-- What a parser finds at its position. `consumed` may exceed what there is. -/
structure Entry where
  nlri : Nlri
  consumed : ℕ
  errors : List String := []
  raw : Option Buffer := none
  /-- The position behind the NLRI is a number. -/
  complete : Bool := true

/-- The bytes that `ipv4BufferToString` and `ipv6BufferToString` print. Only the last byte of the
prefix is masked. -/
def addressBytes (size : ℕ) (buffer : Buffer) (length : ℕ) : Buffer :=
  let bytes := (buffer ++ List.replicate size 0).take size
  if 0 < length % 8 then bytes.modify (length / 8) (keepBits (length % 8)) else bytes

def addressSize (afi : ℕ) : ℕ := if afi = 2 then 16 else 4

/-- The message `label` followed by the number in question. -/
def numbered (label : String) (n : ℕ) : String := label ++ toString n

def errorIf (condition : Prop) [Decidable condition] (message : String) : List String :=
  if condition then [message] else []

/-! ## IP prefixes -/

def parseIpPrefixNlri (afi : ℕ) (length : UInt8) (rest : Buffer) : Entry where
  nlri := .ipPrefix length.toNat
    (addressBytes (addressSize afi) (rest.take (prefixSize length.toNat)) length.toNat)
  consumed := 1 + prefixSize length.toNat

/-! ## Labeled unicast and VPN -/

/-- The labels at the front of a value of that many bits, and what follows them. -/
def parseMplsLabelStack : ℕ → Buffer → List MplsLabel × Buffer
  | bits, a :: b :: c :: rest =>
    if 24 ≤ bits then
      let entry := ofBytes [a, b, c]
      let label : MplsLabel := ⟨entry / 16, entry / 2 % 8, entry % 2 = 1⟩
      if label.bottom then ([label], rest)
      else
        let (labels, rest) := parseMplsLabelStack (bits - 24) rest
        (label :: labels, rest)
    else ([], a :: b :: c :: rest)
  | _, rest => ([], rest)

def labelErrors (family : String) (labels : List MplsLabel) : List String :=
  match labels.getLast? with
  | none => [family ++ " NLRI has no MPLS label"]
  | some label =>
    errorIf (¬ label.bottom) (family ++ " label stack does not contain bottom-of-stack bit")

def maxPrefixLength (afi : ℕ) : ℕ := if afi = 2 then 128 else 32

/-- The error of a prefix that is longer than an address. -/
def prefixLengthErrors (family : String) (afi length : ℕ) : List String :=
  errorIf (maxPrefixLength afi < length) (numbered (family ++ " prefix length ") length ++
    numbered " exceeds AFI maximum " (maxPrefixLength afi))

def parseLabeledUnicastNlri (afi : ℕ) (bits : UInt8) (rest : Buffer) : Entry :=
  let bits := bits.toNat
  let value := rest.take (prefixSize bits)
  let (labels, _) := parseMplsLabelStack bits value
  let length := bits - 24 * labels.length
  let behind := rest.drop (3 * labels.length)
  { nlri := .labeled labels length
      (addressBytes (addressSize afi) (behind.take (prefixSize length)) length)
    consumed := 1 + 3 * labels.length + prefixSize length
    errors :=
      errorIf (rest.length < prefixSize bits)
        "Labeled Unicast NLRI length exceeds remaining buffer" ++
      errorIf (bits < 24) (numbered "Labeled Unicast NLRI length is too short: " bits) ++
      labelErrors "Labeled Unicast" labels ++
      prefixLengthErrors "Labeled Unicast" afi length ++
      errorIf (behind.length < prefixSize length) "Labeled Unicast prefix is truncated"
    raw := some value }

def parseLabeledUnicastWithdrawalNlri (afi : ℕ) (bits : UInt8) (rest : Buffer) : Entry :=
  let bits := bits.toNat
  let length := bits - 24
  let behind := rest.drop 3
  { nlri := .labeledWithdrawal (rest.take 3) length
      (addressBytes (addressSize afi) (behind.take (prefixSize length)) length)
    consumed := min (1 + 3 + prefixSize length) (1 + rest.length)
    errors :=
      errorIf (rest.length < prefixSize bits)
        "Labeled Unicast withdrawal NLRI length exceeds remaining buffer" ++
      errorIf (bits < 24) (numbered "Labeled Unicast withdrawal NLRI length is too short: " bits) ++
      errorIf (rest.length < 3) "Labeled Unicast withdrawal compatibility field is truncated" ++
      prefixLengthErrors "Labeled Unicast withdrawal" afi length ++
      errorIf (behind.length < prefixSize length) "Labeled Unicast withdrawal prefix is truncated"
    raw := some (rest.take (prefixSize bits)) }

/-- The RD and the prefix behind the labels of a VPN route: the RD, the address, the errors and how
much of the value is behind the prefix. -/
def parseRdAndPrefix (family : String) (afi length : ℕ) (behind : Buffer) :
    Option Buffer × Buffer × List String × ℕ :=
  let rd := if 8 ≤ behind.length then some (behind.take 8) else none
  let prefixBuffer := behind.drop 8
  (rd, addressBytes (addressSize afi) (prefixBuffer.take (prefixSize length)) length,
    errorIf (behind.length < 8) (family ++ " RD is truncated") ++
      prefixLengthErrors family afi length ++
      errorIf (prefixBuffer.length < prefixSize length) (family ++ " prefix is truncated"),
    (prefixBuffer.drop (prefixSize length)).length)

def parseRouteDistinguisherNlri (afi : ℕ) (bits : UInt8) (rest : Buffer) : Entry :=
  let bits := bits.toNat
  let value := rest.take (prefixSize bits)
  let (labels, behind) := parseMplsLabelStack bits value
  let length := bits - 24 * labels.length - 64
  let (rd, address, errors, left) := parseRdAndPrefix "VPN" afi length behind
  { nlri := .vpn rd labels length address
    consumed := 1 + (value.length - left)
    errors :=
      errorIf (rest.length < prefixSize bits) "VPN NLRI length exceeds remaining buffer" ++
      errorIf (bits < 24 + 64) (numbered "VPN NLRI length is too short: " bits) ++
      labelErrors "VPN" labels ++ errors
    raw := some value }

def parseRouteDistinguisherWithdrawalNlri (afi : ℕ) (bits : UInt8) (rest : Buffer) : Entry :=
  let bits := bits.toNat
  let value := rest.take (prefixSize bits)
  let length := bits - 24 - 64
  let (rd, address, errors, left) := parseRdAndPrefix "VPN withdrawal" afi length (value.drop 3)
  { nlri := .vpnWithdrawal rd (value.take 3) length address
    consumed := 1 + (value.length - left)
    errors :=
      errorIf (rest.length < prefixSize bits)
        "VPN withdrawal NLRI length exceeds remaining buffer" ++
      errorIf (bits < 24 + 64) (numbered "VPN withdrawal NLRI length is too short: " bits) ++
      errorIf (value.length < 3) "VPN withdrawal compatibility field is truncated" ++ errors
    raw := some value }

/-! ## Queue pairs -/

/-- `parseQpDqpn`. A queue pair that is not a number of bytes keeps the bits of its last byte. -/
def parseQpDqpn (bitLength : ℕ) (value : Buffer) : ℕ :=
  if bitLength % 8 = 0 then doubleOfBytes value
  else doubleOfBytes value % 2 ^ (bitLength % 8)

/-- The last queue pair and the last prefix among the TLVs. -/
structure QpTlvs where
  dqpn : Option (ℕ × ℕ) := none
  prefixValue : Option (ℕ × Buffer) := none

/-- The loop over the TLVs. Every round takes two bytes or more, so `fuel` is the length of the
NLRI. -/
def parseQpTlvs : ℕ → QpTlvs → Buffer → Except String QpTlvs
  | 0, tlvs, _ => .ok tlvs
  | _ + 1, tlvs, [] => .ok tlvs
  | _ + 1, _, [_] => .error "QP NLRI TLV is truncated"
  | fuel + 1, tlvs, type :: bitLength :: rest =>
    let byteLength := prefixSize bitLength.toNat
    let value := rest.take byteLength
    if rest.length < byteLength then .error "QP NLRI TLV value is truncated"
    else
      let tlvs :=
        if type = 1 then
          { tlvs with dqpn := some (parseQpDqpn bitLength.toNat value, bitLength.toNat) }
        else if type = 2 then { tlvs with prefixValue := some (bitLength.toNat, value) }
        else tlvs
      parseQpTlvs fuel tlvs (rest.drop byteLength)

/-- Only AFI 1 has addresses of four bytes here. -/
def parseQpNlri (afi : ℕ) (totalLength : UInt8) (rest : Buffer) : Entry :=
  let invalid (error : String) : Entry :=
    { nlri := .invalidQp, consumed := 1 + min totalLength.toNat rest.length, errors := [error] }
  if rest.length < totalLength.toNat then invalid "QP NLRI is truncated"
  else
    match parseQpTlvs totalLength.toNat {} (rest.take totalLength.toNat) with
    | .error error => invalid error
    | .ok ⟨_, none⟩ => invalid "QP NLRI prefix TLV is missing"
    | .ok ⟨dqpn, some (length, value)⟩ =>
      { nlri := .qp dqpn length (addressBytes (if afi = 1 then 4 else 16) value length)
        consumed := 1 + totalLength.toNat }

/-! ## Families that are not interpreted -/

def parseFallbackNlri (routeType : UInt8) (rest : Buffer) : Entry :=
  let length := (rest.head?.getD 0).toNat
  let value := rest.tail.take length
  { nlri := .fallback routeType.toNat length value, consumed := 2 + length, raw := some value }

/-! ## FlowSpec and link state -/

/-- `parseFlowSpecLength`: the length, the bytes it takes and what is wrong with it. -/
def parseFlowSpecLength (first : UInt8) (rest : Buffer) : ℕ × ℕ × List String :=
  if first.toNat < 240 then (first.toNat, 1, [])
  else match rest with
    | second :: _ => (first.toNat % 16 * 256 + second.toNat, 2, [])
    | [] => (0, 1, ["FlowSpec extended NLRI length is truncated"])

def parseFlowSpecNlri (first : UInt8) (rest : Buffer) : Entry :=
  let (length, lengthBytes, errors) := parseFlowSpecLength first rest
  let behind := rest.drop (lengthBytes - 1)
  let value := behind.take length
  { nlri := .flowSpec length value
    consumed := lengthBytes + value.length
    errors := errors ++
      errorIf (length = 0) "FlowSpec NLRI value must contain at least one component" ++
      errorIf (behind.length < length) "FlowSpec NLRI length exceeds remaining buffer"
    raw := some value }

/-- The errors in front of the TLVs of a link state NLRI of a known type. -/
def bgpLsHeaderErrors (nlriType : ℕ) (behind : Buffer) : List String :=
  if 1 ≤ nlriType ∧ nlriType ≤ 4 then
    errorIf (behind.length < 1) "BGP-LS Protocol-ID is truncated" ++
      errorIf (behind.length < 9) "BGP-LS Identifier is truncated"
  else []

def parseBgpLsNlri (hasRd : Bool) (first : UInt8) (rest : Buffer) : Entry :=
  match rest with
  | second :: third :: fourth :: behind =>
    let nlriType := ofBytes [first, second]
    let length := ofBytes [third, fourth]
    let value := behind.take length
    let rd := if hasRd ∧ 8 ≤ value.length then some (value.take 8) else none
    { nlri := .bgpLs (some nlriType) rd value
      consumed := 4 + value.length
      errors :=
        errorIf (behind.length < length) "BGP-LS Total NLRI Length exceeds remaining buffer" ++
        errorIf (hasRd ∧ value.length < 8) "BGP-LS VPN RD is truncated" ++
        bgpLsHeaderErrors nlriType (value.drop (if hasRd then 8 else 0))
      raw := some value }
  | _ =>
    { nlri := .bgpLs none none (first :: rest)
      consumed := 1 + rest.length
      errors := ["BGP-LS NLRI header is truncated"]
      raw := some (first :: rest) }

end Bgp
