import NetNexus.Bgp.AsPath
import NetNexus.Bgp.EvpnEntry

/-!
# Reading an UPDATE

`parseUpdateMessage` with the sequences of NLRIs in its sections and in MP_REACH_NLRI and
MP_UNREACH_NLRI. Four parsers of attribute values are parameters of the context.
-/

namespace Bgp

open Node

/-- What the reading of a message depends on besides its bytes. -/
structure ParseContext (ν : Type) where
  /-- Where path identifiers are expected, by AFI and SAFI: `getAddPathReceiveInfo` -/
  addPath : ℕ → ℕ → Bool
  asnSize : Option ℕ
  /-- `parseExtCommunities`, `parsePmsiTunnelAttribute`, `parseTunnelEncapsulationAttribute` and
  `parseBgpPrefixSidAttribute`, by type: what each finds and the errors it notes, or what it
  throws -/
  parseValue : UInt8 → Buffer → Except String (ν × List String)

/-- A route that was read. It is valid if there are no errors. -/
structure ParsedRoute where
  pathId : ℕ
  nlri : Nlri
  errors : List String := []
  deriving DecidableEq

/-! ## Sequences -/

def isSimpleIpNlri (afi safi : ℕ) : Bool := (afi == 1 || afi == 2) && (safi == 1 || safi == 2)

def isIpFamily (afi safi expected : ℕ) : Bool := (afi == 1 || afi == 2) && safi == expected

def isBgpLsNlri (afi safi : ℕ) : Bool := afi == 16388 && (safi == 71 || safi == 72)

/-- `parseNlriEntry` on the first byte and what follows it -/
def parseNlriEntry (afi safi : ℕ) (isWithdrawn : Bool) (first : UInt8) (rest : Buffer) : Entry :=
  if isSimpleIpNlri afi safi then parseIpPrefixNlri afi first rest
  else if afi = 25 ∧ safi = 70 then parseEvpnNlri first rest
  else if isIpFamily afi safi 128 then
    if isWithdrawn then parseRouteDistinguisherWithdrawalNlri afi first rest
    else parseRouteDistinguisherNlri afi first rest
  else if isIpFamily afi safi 4 then
    if isWithdrawn then parseLabeledUnicastWithdrawalNlri afi first rest
    else parseLabeledUnicastNlri afi first rest
  else if isIpFamily afi safi 5 then parseFallbackNlri first rest
  else if isIpFamily afi safi 133 then parseFlowSpecNlri first rest
  else if isBgpLsNlri afi safi then parseBgpLsNlri (safi == 72) first rest
  else if safi = 241 then parseQpNlri afi first rest
  else parseFallbackNlri first rest

def Nlri.prefixLength : Nlri → Option ℕ
  | .ipPrefix length _ | .labeled _ length _ | .labeledWithdrawal _ length _ | .vpn _ _ length _
  | .vpnWithdrawal _ _ length _ | .qp _ length _ => some length
  | .evpn _ | .invalidQp | .fallback _ _ _ | .flowSpec _ _ | .bgpLs _ _ _ => none

/-- The queue pair is absent or in bounds. -/
def Nlri.dqpnInBounds : Nlri → Bool
  | .qp none _ _ => true
  | .qp (some (dqpn, bits)) _ _ => dqpn < 2 ^ 53 && bits ≤ 64
  | _ => false

/-- The errors that the sequence adds to those of an entry. -/
def boundsErrors (afi safi : ℕ) (entry : Entry) : List String :=
  errorIf ((isSimpleIpNlri afi safi ∨ isIpFamily afi safi 4 ∨ isIpFamily afi safi 128 ∨
      isIpFamily afi safi 241) ∧ ¬ entry.nlri.prefixLength.any (· ≤ maxPrefixLength afi))
    "prefix length is outside AFI bounds" ++
  errorIf (safi = 241 ∧ ¬ entry.nlri.dqpnInBounds)
    "QP DQPN is missing or outside supported bounds" ++
  errorIf (entry.raw = some []) "NLRI value is empty"

def routeError (label : String) (count : ℕ) (error : String) : String :=
  label ++ numbered " " (count + 1) ++ ": " ++ error

/-- The path identifier in front of a route and what follows it. -/
def takePathId (addPath : Bool) (buffer : Buffer) : Option (ℕ × Buffer) :=
  if addPath then
    if buffer.length < 4 then none else some (ofBytes (buffer.take 4), buffer.drop 4)
  else some (0, buffer)

/-- The round of `parseAddressFamilyNlriSequenceCandidate`. -/
def readNlri (afi safi : ℕ) (isWithdrawn : Bool) (label : String) (addPath : Bool) (count : ℕ)
    (buffer : Buffer) : Wire.Round UInt8 ParsedRoute String :=
  match takePathId addPath buffer with
  | none => { errors := [routeError label count "ADD-PATH Path Identifier is truncated"] }
  | some (_, []) => { errors := [routeError label count "NLRI is truncated"] }
  | some (pathId, first :: rest) =>
    let entry := parseNlriEntry afi safi isWithdrawn first rest
    { item := some ⟨pathId, entry.nlri, entry.errors⟩
      errors :=
        (errorIf (rest.length + 1 < entry.consumed) "NLRI length exceeds remaining buffer" ++
        entry.errors ++ boundsErrors afi safi entry).map (routeError label count)
      complete := entry.complete
      rest := (first :: rest).drop entry.consumed }

/-- The round of `parseIpv4NlriSequenceCandidate`. -/
def readIpv4Prefix (label : String) (addPath : Bool) (count : ℕ) (buffer : Buffer) :
    Wire.Round UInt8 ParsedRoute String :=
  match takePathId addPath buffer with
  | none => { errors := [routeError label count "ADD-PATH Path Identifier is truncated"] }
  | some (_, []) => { errors := [routeError label count "prefix length is missing"] }
  | some (pathId, first :: rest) =>
    let length := first.toNat
    let errors :=
      errorIf (32 < length) (numbered "prefix length " length ++ " exceeds IPv4 maximum 32") ++
      errorIf (rest.length < prefixSize length) "prefix is truncated"
    { item := some ⟨pathId,
        .ipPrefix length (addressBytes 4 (rest.take (prefixSize length)) (min length 32)), errors⟩
      errors := errors.map (routeError label count)
      rest := rest.drop (prefixSize length) }

/-- `chooseNlriParseByLength`: the reading without path identifiers is taken if they are expected
but only that reading goes through. -/
def chooseNlriParseByLength (candidate : Bool → Wire.Sequence ParsedRoute String)
    (enabled : Bool) : Wire.Sequence ParsedRoute String :=
  if ¬ enabled then candidate false
  else if (candidate true).valid then candidate true
  else if (candidate false).valid then candidate false
  else candidate true

def parseAddressFamilyNlriSequence (afi safi : ℕ) (isWithdrawn enabled : Bool) (label : String)
    (buffer : Buffer) : Wire.Sequence ParsedRoute String :=
  chooseNlriParseByLength
    (fun addPath => Wire.readSequence (readNlri afi safi isWithdrawn label addPath) buffer) enabled

def parseIpv4NlriSequence (enabled : Bool) (label : String) (buffer : Buffer) :
    Wire.Sequence ParsedRoute String :=
  chooseNlriParseByLength
    (fun addPath => Wire.readSequence (readIpv4Prefix label addPath) buffer) enabled

/-! ## Path attributes -/

/-- An attribute as it stands in its section. -/
structure RawAttribute where
  flags : UInt8
  type : UInt8
  value : Buffer
  deriving DecidableEq

/-- What the loop of `parsePathAttributes` reads at `position`, and how many bytes that takes. The
buffer from there on is `bytes`, and `size` of them are before `endPosition`. -/
def readAttribute (size : ℕ) (bytes : Buffer) : Except String (RawAttribute × ℕ) :=
  let flags := bytes.getD 0 0
  let valueStart := if extendedLength flags then 4 else 3
  let length := ofBytes ((bytes.take valueStart).drop 2)
  if size < 2 then .error "Path attribute header is truncated"
  else if size < valueStart then
    .error (if extendedLength flags then "Path attribute extended length is truncated"
      else "Path attribute length is truncated")
  else if size < valueStart + length then .error "Path attribute value exceeds its section"
  else .ok (⟨flags, bytes.getD 1 0, (bytes.drop valueStart).take length⟩, valueStart + length)

/-- What is read of MP_REACH_NLRI. -/
structure MpReach where
  afi : ℕ
  safi : ℕ
  nextHop : Buffer
  nlri : List ParsedRoute
  errors : List String
  deriving DecidableEq

/-- What is read of MP_UNREACH_NLRI. -/
structure MpUnreach where
  afi : ℕ
  safi : ℕ
  withdrawnRoutes : List ParsedRoute
  errors : List String
  deriving DecidableEq

/-- What is read from the value of an attribute. -/
inductive AttributeFields (ν : Type) where
  | none
  | origin (origin : UInt8)
  | segments (segments : List Segment)
  | nextHop (address : Buffer)
  /-- MED, LOCAL_PREF and OTC -/
  | number (n : ℕ)
  | aggregator (asn : ℕ) (address : Buffer)
  | communities (communities : List ℕ)
  | mpReach (value : MpReach)
  | mpUnreach (value : MpUnreach)
  | other (value : ν)
  deriving DecidableEq

/-- An attribute with what was read from it. It is valid if there are no errors. -/
structure PathAttribute (ν : Type) where
  raw : RawAttribute
  fields : AttributeFields ν
  errors : List String
  deriving DecidableEq

section

variable {ν : Type} (context : ParseContext ν) (buffer : Buffer)

def parseMpReachNlri : Except String MpReach :=
  match buffer with
  | a₁ :: a₀ :: s :: length :: rest =>
    if buffer.length < 5 then .error "MP_REACH_NLRI header is truncated"
    else if rest.length < length.toNat + 1 then .error "MP_REACH_NLRI next hop is truncated"
    else
      let afi := ofBytes [a₁, a₀]
      let parsed := parseAddressFamilyNlriSequence afi s.toNat false (context.addPath afi s.toNat)
        "NLRI" (rest.drop (length.toNat + 1))
      .ok ⟨afi, s.toNat, rest.take length.toNat, parsed.items, parsed.errors⟩
  | _ => .error "MP_REACH_NLRI header is truncated"

def parseMpUnreachNlri : Except String MpUnreach :=
  match buffer with
  | a₁ :: a₀ :: s :: rest =>
    let afi := ofBytes [a₁, a₀]
    let parsed := parseAddressFamilyNlriSequence afi s.toNat true (context.addPath afi s.toNat)
      "Withdrawn NLRI" rest
    .ok ⟨afi, s.toNat, parsed.items, parsed.errors⟩
  | _ => .error "MP_UNREACH_NLRI header is truncated"

/-- `FIXED_ATTRIBUTE_LENGTHS` -/
def fixedAttributeLengths : UInt8 → Option (List ℕ)
  | 1 => some [1]
  | 3 | 4 | 5 | 35 => some [4]
  | 6 => some [0]
  | 7 => some [6, 8]
  | 18 => some [8]
  | _ => none

/-- The reading of AS_PATH and AS4_PATH. If the context does not give the size of AS numbers, an
AS_PATH may have two bytes for each. -/
def readAsPath (type : UInt8) : Wire.Sequence Segment String :=
  let parsedPath := parseAsPath (if type = 17 then 4 else context.asnSize.getD 4) buffer
  let legacyPath := parseAsPath 2 buffer
  if type = 2 ∧ context.asnSize = none ∧ parsedPath.errors ≠ [] ∧ legacyPath.errors = [] then
    legacyPath
  else parsedPath

/-- The switch over the type of an attribute: what its value holds and what is wrong with it. -/
def readValue (type : UInt8) : Except String (AttributeFields ν × List String) :=
  match type with
  | 1 =>
    if 2 < buffer.getD 0 0 then .ok (.none, ["ORIGIN value is invalid"])
    else .ok (.origin (buffer.getD 0 0), [])
  | 2 | 17 => .ok (.segments (readAsPath context buffer type).items,
      (readAsPath context buffer type).errors)
  | 3 => .ok (.nextHop buffer, [])
  | 4 | 5 | 35 => .ok (.number (ofBytes buffer), [])
  | 7 | 18 =>
    let addressOffset := if buffer.length = 8 then 4 else 2
    .ok (.aggregator (ofBytes (buffer.take addressOffset)) (buffer.drop addressOffset), [])
  | 8 => .ok (.communities (readAsNumbers 4 (buffer.length / 4) buffer), [])
  | 14 => (fun value => (.mpReach value, value.errors)) <$> parseMpReachNlri context buffer
  | 15 => (fun value => (.mpUnreach value, value.errors)) <$> parseMpUnreachNlri context buffer
  | 16 | 22 | 23 | 40 =>
    (fun value => (.other value.1, value.2)) <$> context.parseValue type buffer
  | _ => .ok (.none, [])

/-- What the loop of `parsePathAttributes` makes of an attribute. -/
def parseAttribute (raw : RawAttribute) : Except String (PathAttribute ν) :=
  if ∃ lengths ∈ fixedAttributeLengths raw.type, raw.value.length ∉ lengths then
    .ok ⟨raw, .none, [numbered "Invalid attribute length " raw.value.length]⟩
  else if raw.type = 8 ∧ raw.value.length % 4 ≠ 0 ∨ raw.type = 16 ∧ raw.value.length % 8 ≠ 0 then
    .ok ⟨raw, .none, ["Community attribute value is truncated"]⟩
  else (fun value => ⟨raw, value.1, value.2⟩) <$> readValue context raw.value raw.type

/-- The loop of `parsePathAttributes`. Each round takes the header of an attribute at least, so
that there are not more rounds than bytes. -/
def attributeLoop : ℕ → ℕ → Buffer → Except String (List (PathAttribute ν) × List String)
  | 0, _, _ | _, 0, _ => .ok ([], [])
  | fuel + 1, size, bytes =>
    match readAttribute size bytes with
    | .error error => .ok ([], [error])
    | .ok (raw, length) => do
      let parsed ← parseAttribute context raw
      let (attributes, errors) ← attributeLoop fuel (size - length) (bytes.drop length)
      return (parsed :: attributes, errors)

/-- `parsePathAttributes`: the attributes, `nextPosition` and what is wrong with their framing. -/
def parsePathAttributes (startPosition endPosition : ℕ) :
    Except String (List (PathAttribute ν) × ℕ × List String) :=
  if buffer.length < endPosition ∨ endPosition < startPosition then
    .ok ([], buffer.length, ["Path attribute section is truncated"])
  else do
    let size := endPosition - startPosition
    let (attributes, errors) ← attributeLoop context size size (buffer.drop startPosition)
    return (attributes, endPosition, errors)

/-! ## UPDATE -/

/-- What is read of an UPDATE. -/
structure UpdateMessage (ν : Type) where
  withdrawnRoutes : List ParsedRoute
  pathAttributes : List (PathAttribute ν)
  nlri : List ParsedRoute
  /-- The errors of an attribute stand in the attribute. -/
  errors : List String
  deriving DecidableEq

/-- A section behind its length and what follows it, which has at least `reserve` bytes. -/
def takeSection (buffer : Buffer) (reserve : ℕ) (error : String) :
    Except String (Buffer × Buffer) :=
  match readUInt16BE buffer 0 with
  | some length =>
    if buffer.length - 2 < length + reserve then .error error
    else .ok ((buffer.drop 2).take length, (buffer.drop 2).drop length)
  | none => .error error

def parseUpdateMessage : Except String (UpdateMessage ν) := do
  let enabled := context.addPath 1 1
  let (withdrawn, rest) ← takeSection (buffer.drop headLen) 2
    "BGP UPDATE withdrawn routes length is inconsistent"
  let withdrawn := parseIpv4NlriSequence enabled "Withdrawn route" withdrawn
  let (attributes, _) ←
    takeSection rest 0 "BGP UPDATE path attribute length is inconsistent"
  let (pathAttributes, nextPosition, framingErrors) ←
    parsePathAttributes context rest 2 (2 + attributes.length)
  let nlri := parseIpv4NlriSequence enabled "NLRI" (rest.drop nextPosition)
  return {
    withdrawnRoutes := withdrawn.items
    pathAttributes
    nlri := nlri.items
    errors := framingErrors ++ withdrawn.errors ++ nlri.errors }

/-- What `parseBgpPacket` reads from an UPDATE. -/
def parseUpdatePacket (packet : Buffer) : Except String (UpdateMessage ν) := do
  match ← parsePacketHeader packet with
  | .update => parseUpdateMessage context packet
  | _ => .error "not an UPDATE"

end

end Bgp
