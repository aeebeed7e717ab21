import NetNexus.Bgp.Parser
import NetNexus.Bgp.Update

/-!
# What a route is on the wire

The NLRIs and attributes that a reader of a message should find.
-/

namespace Bgp

open Node Ip

/-- A label that ends its stack. -/
def bottomLabel (label : ℕ) : MplsLabel := ⟨label, 0, true⟩

/-- What is read of the fields behind the RD. -/
def EvpnFields.nlri (rd : Buffer) : EvpnFields → EvpnNlri
  | .autoDiscovery esi tag label =>
    { routeType := 1, rd := some rd, esi := some esi.toList, ethernetTagId := some tag.1
      labels := [label.1] }
  | .macIp esi tag mac ip label label2 =>
    { routeType := 2, rd := some rd, esi := some esi.toList, ethernetTagId := some tag.1
      macLength := some 48, macAddress := some mac.toList
      ipLength := some (((ip.map Address.toByteArray).getD []).length * 8)
      ipAddress := ip.map Address.toByteArray
      labels := label.1 :: label2.toList.map Subtype.val }
  | .inclusiveMulticast tag origin =>
    { routeType := 3, rd := some rd, ethernetTagId := some tag.1
      ipLength := some (origin.toByteArray.length * 8)
      originatingRouterIp := some origin.toByteArray }
  | .ethernetSegment esi origin =>
    { routeType := 4, rd := some rd, esi := some esi.toList
      ipLength := some (origin.toByteArray.length * 8)
      originatingRouterIp := some origin.toByteArray }
  | .ipPrefix esi tag mask ip gateway label =>
    { routeType := 5, rd := some rd, esi := some esi.toList, ethernetTagId := some tag.1
      prefixLength := some mask, ipPrefix := some ip.toByteArray
      gatewayIp := some gateway.toByteArray, labels := [label.1] }

namespace Peer

variable (route : Route)

/-- The queue pair of a route with the number of bits it is written in. -/
def routeDqpn : Except String (Option (ℕ × ℕ)) :=
  if route.hasNoDqpn then .ok none
  else do
    let (bitLength, _) ← encodeQpDqpn (route.dqpn.getD 0)
    return some ((route.dqpn.getD 0).toNat, bitLength.toNat)

end Peer

namespace RawAttribute

def bytes (raw : RawAttribute) : Buffer :=
  raw.flags :: raw.type :: (if extendedLength raw.flags then uint16be raw.value.length
    else [UInt8.ofNat raw.value.length]) ++ raw.value

/-- The length fits its field. -/
def Sized (raw : RawAttribute) : Prop :=
  raw.value.length < if extendedLength raw.flags then 2 ^ 16 else 2 ^ 8

end RawAttribute

end Bgp
