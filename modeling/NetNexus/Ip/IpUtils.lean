import NetNexus.Node.Bytes
import Mathlib.Data.Vector.Defs

/-!
# Addresses

The address helpers of `ipUtils` over the library `ipaddr.js`, which is given by the functions of
it that are used.
-/

namespace Ip

open Node

/-- The kinds of addresses, as `kind` tells them. -/
inductive Kind where
  | ipv4
  | ipv6
  deriving DecidableEq

/-- The length of the addresses of a kind. -/
def Kind.bits : Kind → ℕ
  | .ipv4 => 32
  | .ipv6 => 128

/-- An address as `ipaddr.js` holds it. -/
inductive Address where
  | ipv4 (bytes : Vector UInt8 4)
  | ipv6 (bytes : Vector UInt8 16)
  deriving DecidableEq

namespace Address

/-- `addr.kind()` -/
def kind : Address → Kind
  | .ipv4 _ => .ipv4
  | .ipv6 _ => .ipv6

/-- `addr.toByteArray()` -/
def toByteArray : Address → Buffer
  | .ipv4 bytes => bytes.toList
  | .ipv6 bytes => bytes.toList

end Address

/-! ## Host bits -/

/-- The byte with its first bits only. -/
def keepBits (bits : ℕ) (b : UInt8) : UInt8 := UInt8.ofNat (b.toNat &&& (0xff <<< (8 - bits)))

/-- The bytes of an address without the bits behind the prefix. -/
def clearHostBits (mask : ℕ) (bytes : Buffer) : Buffer :=
  bytes.mapIdx fun i b => keepBits (mask - 8 * i) b

/-- The first address of the network. -/
def networkAddress (mask : ℕ) : Address → Address
  | .ipv4 bytes => .ipv4 (bytes.mapIdx fun i b => keepBits (mask - 8 * i) b)
  | .ipv6 bytes => .ipv6 (bytes.mapIdx fun i b => keepBits (mask - 8 * i) b)

/-- The bits of the bytes, from the highest of the first one on. -/
def bits (bytes : Buffer) : List Bool :=
  bytes.flatMap fun b => (List.range 8).map fun i => b.toNat.testBit (7 - i)

namespace Address

/-- The address starts as the network does. -/
def inNetwork (address network : Address) (mask : ℕ) : Bool :=
  (bits address.toByteArray).take mask = (bits network.toByteArray).take mask

/-- An IPv4 address that is written as an IPv6 address. -/
def isIPv4Mapped : Address → Bool
  | .ipv4 _ => false
  | .ipv6 bytes => bytes.toList.take 12 = List.replicate 10 0 ++ [0xFF, 0xFF]

end Address

/-! ## The library -/

/-- What is used of `ipaddr.js`. What throws without a text that is passed on is `none` then. -/
structure Ipaddr where
  parse : String → Option Address
  /-- `toString` of an address -/
  print : Address → String
  /-- `toNormalizedString` of an IPv6 address -/
  toNormalizedString : Vector UInt8 16 → String
  /-- `IPv4.isValid` -/
  isValidIPv4 : String → Bool
  /-- `IPv4.networkAddressFromCIDR` and `IPv6.networkAddressFromCIDR` -/
  networkAddressFromCIDR : Kind → String → Except String Address
  fromByteArray : Buffer → Except String Address
  isIPv4MappedAddress : Vector UInt8 16 → Bool
  parseCIDR : String → Option (Address × ℕ)
  /-- `match` of an address with a network of its kind and the length of its prefix -/
  matchNetwork : Address → Address → ℕ → Bool

/-- `bytes.join('.')`. -/
def dotted (bytes : Vector UInt8 4) : String :=
  ".".intercalate (bytes.toList.map fun b => toString b.toNat)

namespace Ipaddr

variable (ipaddr : Ipaddr)

/-- The text form in which this program stores an address. -/
def text : Address → String
  | .ipv4 bytes => dotted bytes
  | .ipv6 bytes => ipaddr.toNormalizedString bytes

/-- The documented behaviour that is relied on: the text form of an address parses to it. -/
def Documented : Prop := ∀ address, ipaddr.parse (ipaddr.text address) = some address

/-- What is documented of `toString`: a printed address parses to it, an IPv4 address is printed as
its four numbers, and an IPv6 address with hexadecimal digits and colons only. -/
structure Prints : Prop where
  parse_print : ∀ address, ipaddr.parse (ipaddr.print address) = some address
  print_ipv4 : ∀ bytes, ipaddr.print (.ipv4 bytes) = dotted bytes
  digits : ∀ bytes, ∀ c ∈ (ipaddr.print (.ipv6 bytes)).toList, c = ':' ∨ (hexValue c).isSome

/-- What is documented of the other readers of a printed address: an IPv4 address is valid, and the
network address of a prefix is the address without its host bits. -/
structure ReadsBack : Prop extends ipaddr.Prints where
  isValid_print : ∀ bytes, ipaddr.isValidIPv4 (ipaddr.print (.ipv4 bytes)) = true
  network_print : ∀ (address : Address) (mask : ℕ), mask ≤ address.kind.bits →
    ipaddr.networkAddressFromCIDR address.kind (ipaddr.print address ++ "/" ++ toString mask) =
      .ok (networkAddress mask address)

/-- What is documented of the functions on the bytes of addresses. -/
structure Converts : Prop extends ipaddr.Prints where
  fromByteArray_eq : ∀ address, ipaddr.fromByteArray address.toByteArray = .ok address
  isMapped_eq : ∀ bytes, ipaddr.isIPv4MappedAddress bytes = (Address.ipv6 bytes).isIPv4Mapped
  matchNetwork_eq : ∀ (address network : Address) (mask : ℕ), network.kind = address.kind →
    ipaddr.matchNetwork address network mask = address.inNetwork network mask

/-- `ipToBytes` of `ipUtils` -/
def ipToBytes (ip : String) : Except String Buffer :=
  match ipaddr.parse ip with
  | some address => .ok address.toByteArray
  | none => .error "ipaddr: the address has neither IPv6 nor IPv4 format"

/-- The IPv4 branch of `getNetworkAddress`. -/
def maskIpv4 (bytes : Vector UInt8 4) (prefixLen : ℕ) : Vector UInt8 4 :=
  let ipInt : UInt32 := UInt32.ofNat (ofBytes bytes.toList)
  let mask : UInt32 := ~~~ UInt32.ofNat (2 ^ (32 - prefixLen) - 1)
  let networkInt := ipInt &&& mask
  #v[(networkInt >>> 24).toUInt8, (networkInt >>> 16).toUInt8, (networkInt >>> 8).toUInt8,
    networkInt.toUInt8]

/-- The IPv6 branch of `getNetworkAddress`, which goes through the bits. -/
def maskIpv6 (bytes : Vector UInt8 16) (prefixLen : ℕ) : Vector UInt8 16 :=
  bytes.mapIdx fun i byte =>
    UInt8.ofNat ((List.range 8).foldl
      (fun acc j => acc * 2 + if 8 * i + j < prefixLen then byte.toNat / 2 ^ (7 - j) % 2 else 0) 0)

def getNetworkAddress (ip : String) (prefixLen : ℕ) : Option String :=
  (ipaddr.parse ip).map fun
    | .ipv4 bytes => ipaddr.text (.ipv4 (maskIpv4 bytes prefixLen)) ++ "/" ++ toString prefixLen
    | .ipv6 bytes => ipaddr.text (.ipv6 (maskIpv6 bytes prefixLen)) ++ "/" ++ toString prefixLen

end Ipaddr

/-! ## Buffers as text -/

/-- The segments of two bytes. -/
def segments : Buffer → List ℕ
  | high :: low :: rest => (high.toNat * 256 + low.toNat) :: segments rest
  | _ => []

end Ip
