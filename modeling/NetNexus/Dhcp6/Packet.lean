import NetNexus.Dhcp6.Address

/-!
# DHCPv6 packets

`parseDhcp6Packet` and the functions that build responses. Identifiers are hexadecimal texts, as the
worker keeps them; one that is empty counts as missing.
-/

namespace Dhcp6

open Node

/-! ## Packets -/

/-- `DHCP6_MSG_TYPES`, those that the worker uses. -/
inductive MsgType where
  | solicit
  | advertise
  | request
  | confirm
  | renew
  | rebind
  | reply
  | release
  deriving DecidableEq

def MsgType.code : MsgType → UInt8
  | .solicit => 1
  | .advertise => 2
  | .request => 3
  | .confirm => 4
  | .renew => 5
  | .rebind => 6
  | .reply => 7
  | .release => 8

/-- What is read of a message. -/
structure Packet where
  msgType : UInt8
  txId : Buffer
  clientDuid : Option (List Char)
  serverDuid : Option (List Char)
  iaid : Option (List Char)
  requestedIp : Option (List Char)
  deriving DecidableEq

/-- The loop over the options. A later option replaces an earlier one with its code. -/
def parseOptions : ℕ → Buffer → (ℕ → Option Buffer) → ℕ → Option Buffer
  | fuel + 1, c0 :: c1 :: l0 :: l1 :: rest, options =>
    let len := ofBytes [l0, l1]
    if rest.length < len then options
    else
      parseOptions fuel (rest.drop len)
        (Function.update options (ofBytes [c0, c1]) (some (rest.take len)))
  | _, _, options => options

/-- The loop over the options inside of `IA_NA`, which throws if the address is cut off. -/
def parseIaAddrs : ℕ → Buffer → Option (List Char) → Option (Option (List Char))
  | fuel + 1, c0 :: c1 :: l0 :: l1 :: rest, requestedIp =>
    let subLen := ofBytes [l0, l1]
    if ofBytes [c0, c1] = 5 ∧ 24 ≤ subLen then
      if rest.length < 16 then none
      else parseIaAddrs fuel (rest.drop subLen) (some (bufferToIpv6 (rest.take 16)))
    else parseIaAddrs fuel (rest.drop subLen) requestedIp
  | _, _, requestedIp => some requestedIp

/-- An identifier in hexadecimal digits. -/
def identifier (option : Option Buffer) : Option (List Char) :=
  (option.map hexEncode).filter (· ≠ [])

/-- The address that the identity association asks for. -/
def requestedAddress : Option Buffer → Option (Option (List Char))
  | some iaNa => parseIaAddrs iaNa.length (iaNa.drop 12) none
  | none => some none

/-- `parseDhcp6Packet`. Short packets are dropped, and so are those on which it throws. -/
def parseDhcp6Packet (buf : Buffer) : Option Packet :=
  if buf.length < 4 then none
  else
    let options := parseOptions buf.length (buf.drop 4) fun _ => none
    let iaNa : Option Buffer := (options 3).filter fun data => 12 ≤ data.length
    (requestedAddress iaNa).map fun requestedIp =>
      { msgType := buf.getD 0 0
        txId := (buf.drop 1).take 3
        clientDuid := identifier (options 1)
        serverDuid := identifier (options 2)
        iaid := iaNa.map fun data => hexEncode (data.take 4)
        requestedIp := requestedIp }

/-! ## Responses -/

/-- The configuration of the server. -/
structure Config where
  poolStart : List Char
  poolEnd : List Char
  preferredLifetime : UInt32
  validLifetime : UInt32
  dns1 : Option (List Char)
  dns2 : Option (List Char)

def buildOption (code : ℕ) (data : Buffer) : Buffer :=
  uint16be code ++ uint16be data.length ++ data

def buildIaAddr (ipv6Buf : Buffer) (preferredLifetime validLifetime : UInt32) : Buffer :=
  buildOption 5 (ipv6Buf ++ uint32be preferredLifetime.toNat ++ uint32be validLifetime.toNat)

def buildIaNa (iaidBuf : Buffer) (t1 t2 : ℕ) (iaAddrOpt : Buffer) : Buffer :=
  buildOption 3 (iaidBuf ++ uint32be t1 ++ uint32be t2 ++ iaAddrOpt)

def buildStatusCode (code : ℕ) (msg : String) : Buffer :=
  buildOption 13 (uint16be code ++ utf8Encode msg)

def buildDhcp6Response (msgType : MsgType) (txId : Buffer) (optionList : List Buffer) : Buffer :=
  msgType.code :: txId ++ optionList.flatten

/-- What a response tells about the address. -/
inductive Body where
  | address (assignedIp : List Char)
  | noAddrsAvail
  | released
  deriving DecidableEq

/-- A message that is sent. -/
structure Response where
  msgType : MsgType
  txId : Buffer
  clientDuid : List Char
  iaid : List Char
  body : Body
  deriving DecidableEq

/-- `DNS_SERVERS`, if a server is configured. -/
def dnsOptions (config : Config) : Option (List Buffer) :=
  let dnsServers := [config.dns1, config.dns2].reduceOption.filter (· ≠ [])
  if dnsServers.isEmpty then some []
  else (dnsServers.mapM ipv6ToBuffer).map fun dnsList => [buildOption 23 dnsList.flatten]

/-- The bytes of a response. Nothing is sent if the text of an address is invalid. -/
def Response.encode (response : Response) (config : Config) (serverDuid : Buffer) :
    Option Buffer := do
  let iaidBuf := hexDecode response.iaid
  let ids := [buildOption 2 serverDuid, buildOption 1 (hexDecode response.clientDuid)]
  match response.body with
  | .address assignedIp =>
    let validLifetime := config.validLifetime.toNat
    let ipv6Buf ← ipv6ToBuffer assignedIp
    let iaAddrOpt := buildIaAddr ipv6Buf config.preferredLifetime config.validLifetime
    let iaNaOpt := buildIaNa iaidBuf (validLifetime / 2) (validLifetime * 7 / 8) iaAddrOpt
    let dns ← dnsOptions config
    return buildDhcp6Response response.msgType response.txId (ids ++ [iaNaOpt] ++ dns)
  | .noAddrsAvail =>
    let naOpt := buildIaNa iaidBuf 0 0 (buildStatusCode 2 "No addresses available")
    return buildDhcp6Response response.msgType response.txId (ids ++ [naOpt])
  | .released =>
    let naOpt := buildIaNa iaidBuf 0 0 (buildStatusCode 0 "Released")
    return buildDhcp6Response response.msgType response.txId (ids ++ [naOpt])

end Dhcp6
