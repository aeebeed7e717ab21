import NetNexus.Bgp.Attributes
import NetNexus.Wire.Sequence

/-!
# AS paths

`parseRouteAsPath` of `bgpPeer`, `parseAsPath` of `bgpPacketParser` and `bgpAsPath`.
-/

namespace Bgp

open Node

/-- `BGP_AS_PATH_TYPE` -/
inductive SegmentType where
  | set | sequence | confedSequence | confedSet
  deriving DecidableEq

/-- A segment of an AS path. -/
structure Segment where
  type : SegmentType
  asNumbers : List ℕ
  deriving DecidableEq

/-! ## Coding -/

def parseRouteAsPath (asPath : String) (use4ByteAsn : Bool) : Option Buffer :=
  let numbers := asNumbers asPath
  if numbers = [] then none else some (asSegments use4ByteAsn numbers)

def segmentType : UInt8 → Option SegmentType
  | 1 => some .set
  | 2 => some .sequence
  | 3 => some .confedSequence
  | 4 => some .confedSet
  | _ => none

def readAsNumbers (asnSize : ℕ) : ℕ → Buffer → List ℕ
  | 0, _ => []
  | count + 1, buffer =>
    ofBytes (buffer.take asnSize) :: readAsNumbers asnSize count (buffer.drop asnSize)

/-- The round of the loop of `parseAsPath`. -/
def readSegment (asnSize _count : ℕ) : Buffer → Wire.Round UInt8 Segment String
  | type :: length :: rest =>
    match segmentType type with
    | none => { errors := ["AS_PATH segment type or count is invalid"] }
    | some type =>
      if length = 0 then { errors := ["AS_PATH segment type or count is invalid"] }
      else if rest.length < length.toNat * asnSize then
        { errors := ["AS_PATH segment value is truncated"] }
      else
        { item := some ⟨type, readAsNumbers asnSize length.toNat rest⟩
          rest := rest.drop (length.toNat * asnSize) }
  | _ => { errors := ["AS_PATH segment header is truncated"] }

def parseAsPath (asnSize : ℕ) (buffer : Buffer) : Wire.Sequence Segment String :=
  Wire.readSequence (readSegment asnSize) buffer

/-! ## Reconstruction -/

def Segment.isConfederation (segment : Segment) : Bool :=
  segment.type == .confedSequence || segment.type == .confedSet

/-- What `pathLength` adds for a segment. -/
def Segment.hops (segment : Segment) : ℕ :=
  if segment.isConfederation then 0
  else if segment.type = .set then 1
  else segment.asNumbers.length

def pathLength (segments : List Segment) : ℕ := (segments.map Segment.hops).sum

/-- The loop of `reconstructLegacyAsPath` over the AS_PATH. -/
def leadingHops : ℕ → List Segment → List Segment
  | _, [] => []
  | remaining, segment :: segments =>
    if segment.isConfederation then segment :: leadingHops remaining segments
    else if remaining = 0 then []
    else if segment.type = .set then segment :: leadingHops (remaining - 1) segments
    else
      let count := min remaining segment.asNumbers.length
      if count < segment.asNumbers.length then
        [{ segment with asNumbers := segment.asNumbers.take count }]
      else segment :: leadingHops (remaining - count) segments

def reconstructLegacyAsPath (asPath rawAs4Path : List Segment) : List Segment :=
  let as4Path := rawAs4Path.filter fun segment => !segment.isConfederation
  if pathLength asPath < pathLength as4Path ∨ as4Path = [] then asPath
  else leadingHops (pathLength asPath - pathLength as4Path) asPath ++ as4Path

end Bgp
