import NetNexus.Node.Text

/-!
# DHCPv4 packets

`parseDhcpPacket` and `buildDhcpResponse` of `dhcpWorker`, with the conversions between numbers and
addresses in text. The addresses of the configuration are numbers, which stand for their texts.
-/

namespace Dhcp

open Node

/-! ## Addresses -/

def numToIp (num : UInt32) : String :=
  String.ofList (['.'].intercalate ((uint32be num.toNat).map fun b => Nat.toDigits 10 b.toNat))

/-- `ipToNum`: what is not a number counts as zero in the bitwise operators. -/
def ipToNum (ip : String) : UInt32 :=
  (ip.toList.splitOn '.').foldl
    (fun acc oct => (acc <<< 8) ||| UInt32.ofInt ((parseInt (String.ofList oct)).getD 0)) 0

/-- `ipToBuffer`, on texts whose parts are digits. -/
def ipToBuffer (ip : String) : Buffer :=
  (ip.toList.splitOn '.').map fun part => UInt8.ofNat ((decimal? part).getD 0)

/-! ## Packets -/

/-- `DHCP_MSG_TYPES` -/
inductive MsgType where
  | discover
  | offer
  | request
  | decline
  | ack
  | nak
  | release
  | inform
  deriving DecidableEq

def MsgType.code : MsgType → UInt8
  | .discover => 1
  | .offer => 2
  | .request => 3
  | .decline => 4
  | .ack => 5
  | .nak => 6
  | .release => 7
  | .inform => 8

/-- What is read of a message. -/
structure Packet where
  op : UInt8
  htype : UInt8
  hlen : UInt8
  xid : ℕ
  flags : ℕ
  ciaddr : Buffer
  giaddr : Buffer
  chaddr : Buffer
  macAddr : List Char
  msgType : Option UInt8
  requestedIp : Option String
  serverId : Option String

def magicCookie : Buffer := [99, 130, 83, 99]

/-- The loop over the options, which ends at the end of the buffer, at the option 255 or where a
length is missing. Each turn takes at least one byte. -/
def parseOptions : ℕ → Buffer → (UInt8 → Option Buffer) → UInt8 → Option Buffer
  | fuel + 1, code :: rest, options =>
    if code = 255 then options
    else if code = 0 then parseOptions fuel rest options
    else
      match rest with
      | [] => options
      | len :: rest =>
        parseOptions fuel (rest.drop len.toNat)
          (Function.update options code (some (rest.take len.toNat)))
  | _, _, options => options

/-- Each byte in two hexadecimal digits, with colons between them. -/
def macText (bytes : Buffer) : List Char := [':'].intercalate (bytes.map fun b => hexEncode [b])

/-- The address in an option of at least four bytes. -/
def optionIp (value : Option Buffer) : Option String :=
  value.bind fun bytes => (readUInt32BE bytes 0).map fun num => numToIp (UInt32.ofNat num)

def parseDhcpPacket (buffer : Buffer) : Option Packet :=
  if buffer.length < 236 then none
  else
    let options :=
      if 240 < buffer.length ∧ (buffer.drop 236).take 4 = magicCookie then
        parseOptions buffer.length (buffer.drop 240) fun _ => none
      else fun _ => none
    let hlen := buffer.getD 2 0
    let chaddr := (buffer.drop 28).take 16
    some
      { op := buffer.getD 0 0
        htype := buffer.getD 1 0
        hlen := hlen
        xid := ofBytes ((buffer.drop 4).take 4)
        flags := ofBytes ((buffer.drop 10).take 2)
        ciaddr := (buffer.drop 12).take 4
        giaddr := (buffer.drop 24).take 4
        chaddr := chaddr
        macAddr := macText (chaddr.take (if hlen = 0 then 6 else hlen.toNat))
        msgType := (options 53).bind List.head?
        requestedIp := optionIp (options 50)
        serverId := optionIp (options 54) }

/-! ## Responses -/

/-- The configuration of the server. -/
structure Config where
  serverIp : UInt32
  poolStart : UInt32
  poolEnd : UInt32
  leaseTime : UInt32
  subnetMask : UInt32
  gateway : Option UInt32
  dns1 : Option UInt32
  dns2 : Option UInt32

def buildOption (code : UInt8) (value : Buffer) : Buffer :=
  code :: UInt8.ofNat value.length :: value

/-- `buildDhcpResponse`. The fields follow one another, with zeros for the server name and the boot
file between the hardware address and the cookie. -/
def buildDhcpResponse (config : Config) (packet : Packet) (msgType : MsgType)
    (assignedIp : String) :
    Buffer :=
  let serverIp := ipToBuffer (numToIp config.serverIp)
  let dnsServers := [config.dns1, config.dns2].reduceOption
  [2, packet.htype, packet.hlen, 0] ++ uint32be packet.xid ++ [0, 0] ++ uint16be packet.flags ++
    [0, 0, 0, 0] ++ ipToBuffer assignedIp ++ serverIp ++ packet.giaddr ++ packet.chaddr ++
    List.replicate 192 0 ++ magicCookie ++ buildOption 53 [msgType.code] ++
    buildOption 54 serverIp ++
    (if msgType = .nak then []
      else
        buildOption 51 (uint32be config.leaseTime.toNat) ++
          buildOption 1 (ipToBuffer (numToIp config.subnetMask)) ++
          (config.gateway.toList.flatMap fun gateway =>
            buildOption 3 (ipToBuffer (numToIp gateway))) ++
          (if dnsServers.isEmpty then []
            else buildOption 6 (dnsServers.flatMap fun dns => ipToBuffer (numToIp dns)))) ++
    [255]

end Dhcp
