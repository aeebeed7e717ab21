import NetNexus.Node.Bytes

/-!
# TLVs of Route Monitoring messages

`bmpSession.js` on which TLVs of a message belong to which of its NLRI. The maps whose keys are
NLRI objects are functions; what is only shown, the names and texts of TLVs, is left out.
-/

namespace Bmp

open Node

/-- A TLV as `parseBmpTlvs` returns it. -/
structure Tlv where
  rawType : ℕ
  enterpriseNumber : Option ℕ
  length : ℕ
  /-- Only the TLVs of some messages have an index. -/
  rawIndex : Option ℕ
  value : Buffer
  rawValue : Buffer
  deriving DecidableEq

/-- The types that the session knows. -/
structure TlvTypes where
  group : ℕ
  vrfTableName : ℕ
  bgpMessage : ℕ
  pathMarking : ℕ

/-- `getRouteMonitoringTlvTypes` and `getPathMarkingTlvType` -/
def tlvTypes (draft19 : Bool) (configured : Option ℕ) : TlvTypes :=
  let configured := configured.filter fun type => 1 ≤ type ∧ type ≤ 0x3fff
  if draft19 then ⟨2, 3, 4, configured.getD 5⟩ else ⟨4, 5, 7, configured.getD 8⟩

namespace Tlv

variable (types : TlvTypes) (tlv : Tlv)

def enterprise : Bool := tlv.rawType.testBit 15

def type : ℕ := tlv.rawType % 0x8000

def group : Bool := tlv.rawIndex.any (·.testBit 15)

def index : Option ℕ := tlv.rawIndex.map (· % 0x8000)

def isRouteMonitoringBgpMessageTlv : Bool :=
  !tlv.enterprise && tlv.index.all (· == 0) && tlv.type == types.bgpMessage

def isRouteMonitoringGroupTlv : Bool := !tlv.enterprise && tlv.type == types.group

def isTextTlvValue (value : Buffer) : Bool :=
  !value.isEmpty && value.length ≤ 255 && value.all fun byte => 0x20 ≤ byte && byte != 0x7f

def isPathMarkingTlv : Bool :=
  tlv.type == types.pathMarking && (tlv.value.length == 4 || tlv.value.length == 6) &&
    !(tlv.type == types.vrfTableName && isTextTlvValue tlv.value)

def isRouteTlvVisibleOnRoute : Bool :=
  tlv.enterprise ||
    !(tlv.isRouteMonitoringBgpMessageTlv types || tlv.isRouteMonitoringGroupTlv types)

end Tlv

/-- What is read of a path marking TLV. -/
structure PathMarking where
  tlv : Tlv
  pathStatus : ℕ
  reasonCode : Option ℕ
  deriving DecidableEq

def decodePathMarkingTlv (tlv : Tlv) : PathMarking where
  tlv
  pathStatus := ofBytes (tlv.value.take 4)
  reasonCode := if 6 ≤ tlv.value.length then some (ofBytes ((tlv.value.drop 4).take 2)) else none

/-! ## Positions -/

/-- The positions that a group lists. -/
def groupIndexes : Buffer → List ℕ
  | high :: low :: rest =>
    let index := ofBytes [high, low] % 0x8000
    if 0 < index then index :: groupIndexes rest else groupIndexes rest
  | _ => []

/-- One round of `buildRouteMonitoringGroupMap`. -/
def defineGroup (types : TlvTypes) (groupMap : ℕ → Option (List ℕ)) (tlv : Tlv) :
    ℕ → Option (List ℕ) :=
  match tlv.rawIndex.filter fun _ => tlv.isRouteMonitoringGroupTlv types && tlv.group with
  | some rawIndex => Function.update groupMap rawIndex (some (groupIndexes tlv.value))
  | none => groupMap

def buildRouteMonitoringGroupMap (types : TlvTypes) (routeTlvs : List Tlv) :
    ℕ → Option (List ℕ) :=
  routeTlvs.foldl (defineGroup types) fun _ => none

def resolveIndexedTlvRouteIndexes (tlv : Tlv) (groupMap : ℕ → Option (List ℕ)) (nlriCount : ℕ) :
    List ℕ :=
  if nlriCount = 0 then []
  else if tlv.rawIndex = some 0 ∨ !tlv.group ∧ tlv.index = some 0 then List.range' 1 nlriCount
  else if tlv.group then
    ((tlv.rawIndex.bind groupMap).getD []).filter fun index => 1 ≤ index ∧ index ≤ nlriCount
  else tlv.index.toList.filter fun index => 1 ≤ index ∧ index ≤ nlriCount

/-! ## Assignments -/

/-- A path attribute, as far as it is looked at. -/
structure PathAttribute (ν : Type) where
  typeCode : ℕ
  /-- The NLRI of `mpReach`. -/
  nlri : List ν

def routeMonitoringNlriList {ν : Type} (nlri : List ν) (pathAttributes : List (PathAttribute ν)) :
    List ν :=
  nlri ++ pathAttributes.flatMap fun attr => if attr.typeCode = 14 then attr.nlri else []

/-- A parsed UPDATE. The parser makes a new object for every NLRI. -/
structure ParsedUpdate (ν : Type) where
  nlri : List ν
  pathAttributes : List (PathAttribute ν)
  nodup : (routeMonitoringNlriList nlri pathAttributes).Nodup

def ParsedUpdate.nlriList {ν : Type} (update : ParsedUpdate ν) : List ν :=
  routeMonitoringNlriList update.nlri update.pathAttributes

section Assignments

variable {ν ε : Type} [DecidableEq ν] (types : TlvTypes) (update : ParsedUpdate ν)
  (routeTlvs : List Tlv)

/-- An entry is added to the route at a position, counted from 1. -/
def assign (nlriList : List ν) (assignments : ν → Option (List ε)) (index : ℕ) (entry : ε) :
    ν → Option (List ε) :=
  match nlriList[index - 1]? with
  | none => assignments
  | some nlri => Function.update assignments nlri (some ((assignments nlri).getD [] ++ [entry]))

/-- What both builders do with the TLVs that they accept. -/
def buildAssignments (accepts : Tlv → Bool) (entry : Tlv → ℕ → ε) : ν → Option (List ε) :=
  let groupMap := buildRouteMonitoringGroupMap types routeTlvs
  (routeTlvs.filter accepts).foldl
    (fun assignments tlv =>
      (resolveIndexedTlvRouteIndexes tlv groupMap update.nlriList.length).foldl
        (fun assignments index => assign update.nlriList assignments index (entry tlv index))
        assignments)
    fun _ => none

def buildPathMarkingAssignments : ν → Option (List PathMarking) :=
  buildAssignments types update routeTlvs (Tlv.isPathMarkingTlv types) fun tlv _ =>
    decodePathMarkingTlv tlv

/-- The entries are TLVs with their `appliedNlriIndex`. -/
def buildRouteTlvAssignments : ν → Option (List (Tlv × ℕ)) :=
  buildAssignments types update routeTlvs (Tlv.isRouteTlvVisibleOnRoute types) Prod.mk

end Assignments

end Bmp
