import NetNexus.Replay.Writes
import NetNexus.Rpki.Dataset
import NetNexus.Rpki.Pdu

/-!
# The table of a router

What a router makes of the payload PDUs it receives: a table of wire records, in which every PDU
sets or clears one record. A prefix record and a router key record are identified by all their
fields, an ASPA record by its customer and, in the legacy format, its address family.
-/

namespace Rpki

open Node Replay

/-- What a router tells records apart by. -/
inductive WireKey where
  | ipPrefix (isIpv6 : Bool) (address : Buffer) (length maxLength : UInt8) (asn : Buffer)
  | routerKey (ski asn spki : Buffer)
  | aspa (customer : Buffer) (afi : Option UInt8)
  deriving DecidableEq

/-- The table: the provider set of an ASPA record, and the empty set for the other records. -/
abbrev RouterTable := WireKey → Option (Set Buffer)

/-- The provider ASNs, of four bytes each. -/
def providerBytes : Buffer → List Buffer
  | a :: b :: c :: d :: rest => [a, b, c, d] :: providerBytes rest
  | _ => []

def value (flags : UInt8) (providers : Buffer) : Option (Set Buffer) :=
  if flags = 1 then some {p | p ∈ providerBytes providers} else none

/-- What a payload PDU says about the table. The router knows the ASPA format. -/
def readPdu (format : AspaFormat) (pdu : Buffer) : Option (Write WireKey (Set Buffer)) :=
  let byte := fun i => pdu.getD i 0
  let slice := fun i n => (pdu.drop i).take n
  if byte 1 = 4 then
    some (.ipPrefix false (slice 12 4) (byte 9) (byte 10) (slice 16 4), value (byte 8) [])
  else if byte 1 = 6 then
    some (.ipPrefix true (slice 12 16) (byte 9) (byte 10) (slice 28 4), value (byte 8) [])
  else if byte 1 = 9 then
    some (.routerKey (slice 8 20) (slice 28 4) (pdu.drop 32), value (byte 2) [])
  else if byte 1 = 11 then
    match format with
    | .latest => some (.aspa (slice 8 4) none, value (byte 2) (pdu.drop 12))
    | .legacy => some (.aspa (slice 12 4) (some (byte 9)), value (byte 8) (pdu.drop 16))
  else none

/-- The table after a list of PDUs, from an empty one. -/
def RouterTable.ofPdus (format : AspaFormat) (pdus : List Buffer) : RouterTable :=
  writeAll (fun _ => none) (pdus.filterMap (readPdu format))

namespace Encoding

variable (c : Encoding)

/-- The table of a router that has received the full snapshot. -/
def snapshotTable (t : Tables) : Except String RouterTable :=
  (c.snapshotBuffers t.roas.rows t.routerKeys.rows t.aspas.rows).map
    (RouterTable.ofPdus c.aspaFormat)

/-- The table of a router that has received the full snapshot and then a delta. -/
def updatedTable (t : Tables) (operations : List Operation) : Except String RouterTable := do
  let snapshot ← c.snapshotBuffers t.roas.rows t.routerKeys.rows t.aspas.rows
  let delta ← c.deltaBuffers operations
  return RouterTable.ofPdus c.aspaFormat (snapshot ++ delta)

end Encoding

/-! ## When a delta can be sent and does what it should -/

/-- The wire identity of a router key that is sent: SKI, ASN and SPKI. -/
def RouterKey.wire (rk : RouterKey) : Option (Buffer × Buffer × Buffer) :=
  let ski := hexDecode rk.ski.toList
  if ski.length ≠ 20 then none
  else match writeUInt32BE (parseInt rk.asn) with
    | .ok asn => some (ski, asn, hexDecode rk.spki.toList)
    | .error _ => none

/-- The ASN of a router key that is sent fits its field. -/
def RouterKey.Encodable (rk : RouterKey) : Prop :=
  (hexDecode rk.ski.toList).length = 20 → ∀ n, parseInt rk.asn = some n → 0 ≤ n ∧ n ≤ 0xFFFFFFFF

/-- The router keys, the announced ASPAs and the ROAs of an operation. -/
def Operation.routerKeys : Operation → List RouterKey
  | .routerKey _ rk => [rk]
  | _ => []

def Operation.announcedAspas : Operation → List Aspa
  | .aspa .announce data => [data]
  | .aspaReplace _ newData => [newData]
  | _ => []

def Operation.roas : Operation → List Roa
  | .roa _ data => [data]
  | _ => []

/-- The provider count of an announced ASPA has to fit its field in the legacy format. -/
def Encoding.AspaFits (c : Encoding) (aspa : Aspa) : Prop :=
  c.protocolVersion = .v2 → c.aspaFormat = .legacy → aspa.providerAsns.length ≤ 0xFFFF

/-- The numbers of an operation fit their fields. -/
def Encoding.OperationFits (c : Encoding) (operation : Operation) : Prop :=
  (c.protocolVersion ≠ .v0 → ∀ rk ∈ operation.routerKeys, rk.Encodable) ∧
    ∀ aspa ∈ operation.announcedAspas, c.AspaFits aspa

/-- Every PDU of the snapshot and of the delta can be built. -/
def Encoding.Fits (c : Encoding) (t : Tables) (operations : List Operation) : Prop :=
  (c.protocolVersion ≠ .v0 →
      ∀ rk ∈ t.routerKeys.rows ++ operations.flatMap Operation.routerKeys, rk.Encodable) ∧
    (c.protocolVersion = .v2 → c.aspaFormat = .legacy →
      ∀ aspa ∈ t.aspas.rows ++ operations.flatMap Operation.announcedAspas,
        aspa.providerAsns.length ≤ 0xFFFF)

/-- A router key that the operations withdraw for good leaves no other one behind that looks the
same on the wire. -/
def WithdrawsExactly (operations : List Operation) (t' : Tables) : Prop :=
  ∀ before rk after, operations = before ++ .routerKey .withdraw rk :: after → rk.wire ≠ none →
    (∀ rk₁ ∈ after.flatMap Operation.routerKeys, rk₁.wire ≠ rk.wire) →
    ∀ rk' ∈ t'.routerKeys.rows, rk'.wire ≠ rk.wire

end Rpki
