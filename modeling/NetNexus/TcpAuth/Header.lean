import NetNexus.Ip.IpUtils

/-!
# The header of a forwarded connection

`tcpAuthForwardProtocol`: the helper that terminates an authenticated connection sends a header of
80 bytes before the stream, which names the two ends and carries the capability of the server.
-/

namespace TcpAuth

open Node Ip

/-- `NNAO` -/
def magic : Buffer := [0x4E, 0x4E, 0x41, 0x4F]

def version : UInt8 := 1

def headerBytes : ℕ := 80

def capabilityBytes : ℕ := 32

/-- What is read of a proxy header. -/
structure Metadata where
  family : ℕ
  remoteAddress : String
  remotePort : ℕ
  localAddress : String
  localPort : ℕ
  deriving DecidableEq

def normalizePort (value : ℕ) (field : String) : Except String ℕ :=
  if value < 1 ∨ 65535 < value then .error (field ++ "无效") else .ok value

def normalizeCapability (value : Buffer) : Except String Buffer :=
  if value.length ≠ capabilityBytes then .error "TCP认证内部通道能力令牌长度无效" else .ok value

end TcpAuth

namespace Ip.Address

open Node

/-- `kind`, as the number that stands for it. -/
def family : Address → ℕ
  | .ipv4 _ => 4
  | .ipv6 _ => 6

/-- The 16 bytes in which a header holds the address. -/
def padded : Address → Buffer
  | .ipv4 bytes => List.replicate 12 0 ++ bytes.toList
  | .ipv6 bytes => bytes.toList

end Ip.Address

namespace TcpAuth

open Node Ip

section

variable (lib : Ipaddr)

/-- `parsed.isIPv4MappedAddress?.()` -/
def isMapped : Address → Bool
  | .ipv4 _ => false
  | .ipv6 bytes => lib.isIPv4MappedAddress bytes

def encodeAddress (address : String) (family : ℕ) : Except String Buffer :=
  match lib.parse address with
  | none => .error "TCP认证转发地址无效"
  | some parsed =>
    if parsed.family ≠ family ∨ family = 6 ∧ isMapped lib parsed then
      .error "TCP认证转发地址族不匹配"
    else .ok parsed.padded

def decodeAddress (bytes : Buffer) (family : ℕ) : Except String String :=
  if family = 4 then
    if bytes.take 12 ≠ List.replicate 12 0 then .error "TCP认证 IPv4地址填充无效"
    else do
      let parsed ← lib.fromByteArray (bytes.drop 12)
      return lib.print parsed
  else do
    let parsed ← lib.fromByteArray bytes
    if isMapped lib parsed then .error "TCP认证转发头禁止IPv4映射IPv6地址"
    else return lib.print parsed

def encodeTcpAuthForwardHeader (metadata : Metadata) (capability : Buffer) :
    Except String Buffer :=
  if metadata.family ≠ 4 ∧ metadata.family ≠ 6 then .error "TCP认证转发地址族无效"
  else do
    let token ← normalizeCapability capability
    let remotePort ← normalizePort metadata.remotePort "TCP认证远端端口"
    let localPort ← normalizePort metadata.localPort "TCP认证本地端口"
    let remote ← encodeAddress lib metadata.remoteAddress metadata.family
    let localEnd ← encodeAddress lib metadata.localAddress metadata.family
    return magic ++ [version, UInt8.ofNat metadata.family] ++ uint16be headerBytes ++
      uint16be remotePort ++ uint16be localPort ++ uint32be 0 ++ remote ++ localEnd ++ token

def field (header : Buffer) (offset length : ℕ) : Buffer := (header.drop offset).take length

def decodeTcpAuthForwardHeader (header expectedCapability : Buffer) : Except String Metadata := do
  let token ← normalizeCapability expectedCapability
  if header.length ≠ headerBytes then .error "TCP认证转发头长度无效"
  else if field header 0 4 ≠ magic then .error "TCP认证转发头魔数无效"
  else if field header 4 1 ≠ [version] then .error "TCP认证转发头版本无效"
  else
    let family := ofBytes (field header 5 1)
    if family ≠ 4 ∧ family ≠ 6 then .error "TCP认证转发地址族无效"
    else if ofBytes (field header 6 2) ≠ headerBytes then .error "TCP认证转发头声明长度无效"
    else if ofBytes (field header 12 4) ≠ 0 then .error "TCP认证转发头保留字段必须为零"
    else if field header 48 32 ≠ token then .error "TCP认证内部通道认证失败"
    else do
      let remoteAddress ← decodeAddress lib (field header 16 16) family
      let remotePort ← normalizePort (ofBytes (field header 8 2)) "TCP认证远端端口"
      let localAddress ← decodeAddress lib (field header 32 16) family
      let localPort ← normalizePort (ofBytes (field header 10 2)) "TCP认证本地端口"
      return { family, remoteAddress, remotePort, localAddress, localPort }

end

/-! ## What a header stands for -/

/-- The two ends of a connection that can be forwarded. -/
structure Endpoints where
  remote : Address
  localEnd : Address
  remotePort : ℕ
  localPort : ℕ
  family_eq : localEnd.family = remote.family
  remote_unmapped : remote.isIPv4Mapped = false
  local_unmapped : localEnd.isIPv4Mapped = false
  remotePort_valid : 1 ≤ remotePort ∧ remotePort ≤ 65535
  localPort_valid : 1 ≤ localPort ∧ localPort ≤ 65535

def Endpoints.metadata (lib : Ipaddr) (e : Endpoints) : Metadata where
  family := e.remote.family
  remoteAddress := lib.print e.remote
  remotePort := e.remotePort
  localAddress := lib.print e.localEnd
  localPort := e.localPort

def Endpoints.header (e : Endpoints) (capability : Buffer) : Buffer :=
  magic ++ [version, UInt8.ofNat e.remote.family] ++ uint16be headerBytes ++
    uint16be e.remotePort ++ uint16be e.localPort ++ uint32be 0 ++ e.remote.padded ++
    e.localEnd.padded ++ capability

end TcpAuth
