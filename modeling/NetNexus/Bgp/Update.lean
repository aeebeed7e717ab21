import NetNexus.Bgp.Nlri
import NetNexus.Wire.Packing

/-!
# UPDATE messages of a peer

The builders of announcements and withdrawals and the loop that sends a list of routes. A builder
looks at the routes from its index on, so it is given these and returns how many it has taken.
-/

namespace Bgp

open Node Ip

/-- `BGP_MAX_PKT_SIZE` -/
def maxPktSize : ℕ := 4096

/-- `session.buildBgpMessageHeader` -/
def buildBgpMessageHeader (totalLength : ℕ) (type : UInt8) : Except String Buffer := do
  let length ← writeUInt16BE totalLength
  return List.replicate markerLen 0xff ++ length ++ [type]

/-- A section behind its length in two bytes. -/
def sized (bytes : Buffer) : Except String Buffer := do
  return (← writeUInt16BE bytes.length) ++ bytes

/-- An UPDATE from its three sections. -/
def updateMessage (withdrawn attributes nlri : Buffer) : Except String Buffer := do
  let body := (← sized withdrawn) ++ (← sized attributes) ++ nlri
  return (← buildBgpMessageHeader (headLen + body.length) 2) ++ body

/-- What a builder returns: the number of routes it has taken and the message, or the error for
which it reports a failure. -/
abbrev Built := Except String (ℕ × Buffer)

namespace Peer

variable (ipaddr : Ipaddr) (peer : Peer)

/-- A builder that starts with the first route. The one behind the end of a list is undefined. -/
def builder {δ : Type} (start : Route → Except String δ)
    (step : δ → ℕ → Buffer → Route → Except String (Option Buffer))
    (finish : δ → Buffer → Except String Buffer) : List Route → Built :=
  Wire.build "Cannot read properties of undefined" start step finish

/-! ## Announcements -/

/-- The routes behind the first one need the same next hop. -/
def nextHopDiffers (nextHop : Buffer) (count : ℕ) (route : Route) : Except String Bool :=
  if count = 0 then .ok false
  else do return (← peer.getMpReachNextHopBytes ipaddr route) != nextHop

/-- The step of a loop over prefixes that looks at nothing else. -/
def ipPrefixStep (used : ℕ) : ℕ → Buffer → Route → Except String (Option Buffer) :=
  { encode := fun route => buildIpPrefixNlri ipaddr route peer.shouldSendAddPath
    stops := fun _ _ _ => .ok false
    used
    limit := maxPktSize : Wire.Packing Route UInt8 String }.stepAhead

/-- The step of the loop of `buildMpReachNlriAttribute` over the routes, by family. For queue pairs
the first route is the one before which nothing is written. -/
def mpReachStep (nextHop : Buffer) (used : ℕ) :
    ℕ → Buffer → Route → Except String (Option Buffer) :=
  let pack (encode : Route → Except String Buffer) : Wire.Packing Route UInt8 String :=
    { encode, used, limit := maxPktSize
      stops := fun count _ => peer.nextHopDiffers ipaddr nextHop count }
  if peer.safi = 128 then (pack fun route => encodeVpnNlri ipaddr route peer.afi false).step false
  else if peer.safi = 70 then (pack fun route => encodeEvpnNlri ipaddr route).step false
  else if peer.afi = 1 ∧ peer.safi = 5 then (pack (peer.buildMvpnNlri ipaddr)).step true
  else if peer.safi = 241 then
    { pack (buildQpNlri ipaddr) with
      stops := fun _ written => peer.nextHopDiffers ipaddr nextHop written.length
      : Wire.Packing Route UInt8 String }.step true
  else if peer.afi = 1 ∧ peer.safi = 4 then
    (pack fun route => buildLabeledUnicastNlri ipaddr route peer.shouldSendAddPath).step true
  else (pack fun route => buildIpPrefixNlri ipaddr route peer.shouldSendAddPath).stepAhead

/-- An attribute with NLRIs, with its length in two bytes. -/
def mpAttribute (type : UInt8) (value : Buffer) : Except String Buffer := do
  return 0x90 :: type :: (← sized value)

/-- The attribute of `buildMpReachNlriAttribute` -/
def mpReachAttribute (nextHop nlri : Buffer) : Except String Buffer :=
  mpAttribute mpReachType (uint16be peer.afi ++ UInt8.ofNat peer.safi ::
    UInt8.ofNat nextHop.length :: nextHop ++ 0 :: nlri)

def buildUpdateMpMsg : List Route → Built :=
  builder
    (fun first => do
      let pathAttr ← peer.buildRoutePathAttributes ipaddr first false
      return (pathAttr, ← peer.getMpReachNextHopBytes ipaddr first))
    (fun (pathAttr, nextHop) =>
      let msgLen := headLen + 2 + 2 + pathAttr.length
      peer.mpReachStep ipaddr nextHop (msgLen + 2 + 2 + 3 + (1 + nextHop.length) + 1))
    (fun (pathAttr, nextHop) nlri => do
      updateMessage [] (pathAttr ++ (← peer.mpReachAttribute nextHop nlri)) [])

def buildUpdateMsgIpv4 : List Route → Built :=
  builder (fun first => peer.buildRoutePathAttributes ipaddr first true)
    (fun pathAttr => peer.ipPrefixStep ipaddr (headLen + 2 + (pathAttr.length + 2)))
    (fun pathAttr nlri => updateMessage [] pathAttr nlri)

/-! ## Withdrawals -/

def buildWithdrawMsgIpv4 : List Route → Built :=
  builder (fun _ => .ok ()) (fun _ => peer.ipPrefixStep ipaddr (headLen + 2 + 2))
    (fun _ nlri => updateMessage nlri [] [])

/-- The step of the loop of `buildMpUnreachNlriAttribute` over the routes, by family. -/
def mpUnreachStep (used : ℕ) : ℕ → Buffer → Route → Except String (Option Buffer) :=
  let pack (encode : Route → Except String Buffer) : Wire.Packing Route UInt8 String :=
    { encode, used, limit := maxPktSize, stops := fun _ _ _ => .ok false }
  if peer.safi = 128 then (pack fun route => encodeVpnNlri ipaddr route peer.afi true).step false
  else if peer.safi = 70 then (pack fun route => encodeEvpnNlri ipaddr route).step false
  else if peer.safi = 5 then (pack (peer.buildMvpnNlri ipaddr)).step true
  else if peer.safi = 241 then (pack (buildQpNlri ipaddr)).step true
  else if peer.safi = 4 then
    (pack fun route => buildLabeledUnicastNlri ipaddr route peer.shouldSendAddPath).step true
  else peer.ipPrefixStep ipaddr used

/-- The attribute of `buildMpUnreachNlriAttribute` -/
def mpUnreachAttribute (nlri : Buffer) : Except String Buffer :=
  mpAttribute mpUnreachType (uint16be peer.afi ++ UInt8.ofNat peer.safi :: nlri)

def buildWithdrawMpMsg : List Route → Built :=
  builder (fun _ => .ok ()) (fun _ => peer.mpUnreachStep ipaddr (headLen + 2 + 2 + 2 + 2 + 3))
    (fun _ nlri => do updateMessage [] (← peer.mpUnreachAttribute nlri) [])

/-! ## Sending -/

/-- The builders of UPDATE messages. -/
inductive Builder where
  | updateMpMsg
  | updateMsgIpv4
  | withdrawMpMsg
  | withdrawMsgIpv4
  deriving DecidableEq

def Builder.build (ipaddr : Ipaddr) (peer : Peer) : Builder → List Route → Built
  | .updateMpMsg => peer.buildUpdateMpMsg ipaddr
  | .updateMsgIpv4 => peer.buildUpdateMsgIpv4 ipaddr
  | .withdrawMpMsg => peer.buildWithdrawMpMsg ipaddr
  | .withdrawMsgIpv4 => peer.buildWithdrawMsgIpv4 ipaddr

/-- `sendBuiltRouteLoop` over a session that sends at once: the messages handed to `sendRoute`. -/
def sendBuiltRouteLoop (builder : List Route → Built) (fuel : ℕ) (routes : List Route) :
    Option (List Buffer) :=
  Wire.sendAll builder maxPktSize fuel routes

end Peer

end Bgp
