import NetNexus.Rpki.Normalize
import NetNexus.Rpki.Worker

/-!
# PDUs

The byte layout of the PDUs that `RpkiSession` builds. A PDU is written field by field; the
buffer is the concatenation of the fields. Building throws where a number does not fit its field.
-/

namespace Rpki

open Node Ip

/-- The versions of the protocol. -/
inductive ProtocolVersion where
  | v0
  | v1
  | v2
  deriving DecidableEq, Repr

def ProtocolVersion.byte : ProtocolVersion → UInt8
  | .v0 => 0
  | .v1 => 1
  | .v2 => 2

/-- The two layouts of an ASPA PDU. -/
inductive AspaFormat where
  | latest
  | legacy
  deriving DecidableEq, Repr

/-- `RPKI_FLAGS`. -/
def Action.flags : Action → UInt8
  | .withdraw => 0x00
  | .announce => 0x01

/-- The fields of a session that the builders read. -/
structure Encoding where
  ipaddr : Ipaddr
  protocolVersion : ProtocolVersion
  aspaFormat : AspaFormat
  sessionId : ℕ

namespace Encoding

variable (c : Encoding)

def header (type : UInt8) (field : Buffer) (totalLen : ℕ) : Buffer :=
  [c.protocolVersion.byte, type] ++ field ++ uint32be totalLen

/-! ## Payload -/

def buildPrefixPdu (roa : Roa) (action : Action) (isIpv6 : Bool) : Except String Buffer := do
  let prefixLen := if isIpv6 then 16 else 4
  let ipBytes ← c.ipaddr.ipToBytes roa.ip
  return c.header (if isIpv6 then 6 else 4) [0, 0] (8 + 8 + prefixLen) ++
    [action.flags, UInt8.ofNat roa.mask, UInt8.ofNat roa.maxLength, 0] ++
    (List.range prefixLen).map (fun i => ipBytes.getD i 0) ++ uint32be roa.asn.toNat

/-- `none` stands for a router key that cannot be sent: on version 0, or if its SKI does not have 20
bytes. -/
def buildRouterKeyPdu (rk : RouterKey) (action : Action) : Except String (Option Buffer) :=
  if c.protocolVersion = .v0 then .ok none
  else
    let skiBuf := hexDecode rk.ski.toList
    let spkiBuf := hexDecode rk.spki.toList
    if skiBuf.length ≠ 20 then .ok none
    else do
      let asn ← writeUInt32BE (parseInt rk.asn)
      return some (c.header 9 [action.flags, 0] (8 + 20 + 4 + spkiBuf.length) ++
        skiBuf ++ asn ++ spkiBuf)

def getLegacyAspaAfiFlags (aspa : Aspa) : List UInt8 :=
  match aspa.afiFlags with
  | .ipv4 => [0]
  | .ipv6 => [1]
  | .both => [0, 1]

def buildAspaLegacyPdu (aspa : Aspa) (action : Action) (legacyAfiFlags : UInt8) :
    Except String Buffer := do
  let providers := if action = .withdraw then [] else aspa.providerAsns
  let providerCount ← writeUInt16BE providers.length
  return c.header 11 [0, 0] (8 + 8 + 4 * providers.length) ++
    [action.flags, legacyAfiFlags] ++ providerCount ++ uint32be aspa.customerAsn.toNat ++
    providers.flatMap (fun asn => uint32be asn.toNat)

def buildAspaPdus (aspa : Aspa) (action : Action) : Except String (List Buffer) :=
  if c.protocolVersion ≠ .v2 then .ok []
  else if c.aspaFormat = .legacy then
    (getLegacyAspaAfiFlags aspa).mapM (c.buildAspaLegacyPdu aspa action)
  else
    let providers := if action = .withdraw then [] else aspa.providerAsns
    .ok [c.header 11 [action.flags, 0] (8 + 4 + 4 * providers.length) ++
      uint32be aspa.customerAsn.toNat ++ providers.flatMap (fun asn => uint32be asn.toNat)]

def buildAspaReplacementPdus (oldAspa newAspa : Aspa) : Except String (List Buffer) :=
  if c.protocolVersion ≠ .v2 then .ok []
  else if c.aspaFormat ≠ .legacy then c.buildAspaPdus newAspa .announce
  else do
    let oldAfiFlags := getLegacyAspaAfiFlags oldAspa
    let newAfiFlags := getLegacyAspaAfiFlags newAspa
    let updates ← newAfiFlags.mapM (c.buildAspaLegacyPdu newAspa .announce)
    let withdrawals ← (oldAfiFlags.filter (· ∉ newAfiFlags)).mapM
      (c.buildAspaLegacyPdu oldAspa .withdraw)
    return updates ++ withdrawals

/-! ## Responses -/

def buildDeltaOperationBuffers : Operation → Except String (List Buffer)
  | .roa action roa => do return [← c.buildPrefixPdu roa action (roa.ipType ≠ .ipv4)]
  | .routerKey action rk => do return (← c.buildRouterKeyPdu rk action).toList
  | .aspaReplace oldData newData => c.buildAspaReplacementPdus oldData newData
  | .aspa action aspa => c.buildAspaPdus aspa action

/-- The PDUs of a list of items, one item after the other, as `writeChunkedPduList` and
`writeDeltaOperations` write them. -/
def pduList {α : Type} (items : List α) (buildPdus : α → Except String (List Buffer)) :
    Except String (List Buffer) := do
  return (← items.mapM buildPdus).flatten

/-- What `writeRoaListData` writes. -/
def roaListData (roas : List Roa) : Except String (List Buffer) :=
  pduList roas fun roa => do return [← c.buildPrefixPdu roa .announce (roa.ipType ≠ .ipv4)]

/-- What `writeRouterKeyData` writes, which is called from version 1 on. -/
def routerKeyData (routerKeys : List RouterKey) : Except String (List Buffer) :=
  if c.protocolVersion = .v0 then .ok []
  else pduList routerKeys fun rk => do return (← c.buildRouterKeyPdu rk .announce).toList

/-- What `writeAspaListData` writes, which is called from version 2 on. -/
def aspaListData (aspas : List Aspa) : Except String (List Buffer) :=
  if c.protocolVersion ≠ .v2 then .ok []
  else pduList aspas fun aspa => c.buildAspaPdus aspa .announce

/-- The payload of a Reset Query response. -/
def snapshotBuffers (roas : List Roa) (routerKeys : List RouterKey) (aspas : List Aspa) :
    Except String (List Buffer) := do
  let prefixes ← c.roaListData roas
  let keys ← c.routerKeyData routerKeys
  let aspaPdus ← c.aspaListData aspas
  return prefixes ++ keys ++ aspaPdus

/-- The payload of a Serial Query response. -/
def deltaBuffers (operations : List Operation) : Except String (List Buffer) :=
  pduList operations c.buildDeltaOperationBuffers

/-! ## Control -/

def buildCacheResponsePdu : Buffer := c.header 3 (uint16be c.sessionId) 8

def buildEndOfDataPdu (serial : UInt32) : Buffer :=
  if c.protocolVersion = .v0 then
    c.header 7 (uint16be c.sessionId) 12 ++ uint32be serial.toNat
  else
    c.header 7 (uint16be c.sessionId) 24 ++ uint32be serial.toNat ++ uint32be 3600 ++
      uint32be 600 ++ uint32be 7200

def buildSerialNotifyPdu (serial : UInt32) : Buffer :=
  c.header 0 (uint16be c.sessionId) 12 ++ uint32be serial.toNat

def buildCacheResetPdu : Buffer := c.header 8 [0, 0] 8

def buildErrorReportPdu (errorCode : ℕ) : Buffer :=
  c.header 10 (uint16be errorCode) 16 ++ uint32be 0 ++ uint32be 0

end Encoding

end Rpki
