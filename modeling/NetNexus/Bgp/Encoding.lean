import NetNexus.Ip.IpUtils
import NetNexus.Node.Text

/-!
# Route distinguishers and extended communities

Both are eight bytes that are written from texts `administrator:assigned`, where the
administrator is an IPv4 address or the number of an AS.
-/

namespace Bgp

open Node Ip

variable (ipaddr : Ipaddr)

/-- The four bytes of an address that `IPv4.isValid` has accepted. Those of another kind do not fit
into the buffer. -/
def ipv4Bytes (text : String) : Except String Buffer := do
  let bytes ← ipaddr.ipToBytes text
  if bytes.length = 4 then return bytes else .error "offset is out of bounds"

/-- What `rdStringToBytes` and `extCommunitiesToBytes` have in common: the bytes of
`administrator:assigned` behind a header of two bytes that tells the form of the administrator. A
text of another shape gives eight zeros. -/
def administratedBytes (header : UInt8 → Buffer) (text : List Char) : Except String Buffer :=
  match text.splitOn ':' with
  | [first, second] =>
    if '.' ∈ first ∧ ipaddr.isValidIPv4 (String.ofList first) then do
      let bytes ← ipv4Bytes ipaddr (String.ofList first)
      let assigned ← writeUIntBE 2 (parseIntAuto second)
      return header 1 ++ bytes ++ assigned
    else
      let admin := parseIntAuto first
      if admin.any (· > 0xffff) then do
        let admin ← writeUIntBE 4 admin
        let assigned ← writeUIntBE 2 (parseIntAuto second)
        return header 2 ++ admin ++ assigned
      else do
        let admin ← writeUIntBE 2 admin
        let assigned ← writeUIntBE 4 (parseIntAuto second)
        return header 0 ++ admin ++ assigned
  | _ => .ok (List.replicate 8 0)

def rdStringToBytes (rd : String) : Except String Buffer :=
  administratedBytes ipaddr (fun type => [0, type]) rd.toList

/-- `rdBufferToString` of eight bytes -/
def rdBufferToString (rd : Buffer) : String :=
  let value := rd.drop 2
  match ofBytes (rd.take 2) with
  | 0 => toString (ofBytes (value.take 2)) ++ ":" ++ toString (ofBytes (value.drop 2))
  | 1 => ".".intercalate ((value.take 4).map fun b => toString b.toNat) ++ ":" ++
      toString (ofBytes (value.drop 4))
  | 2 => toString (ofBytes (value.take 4)) ++ ":" ++ toString (ofBytes (value.drop 4))
  | type => "unknown(" ++ toString type ++ ")"

def extCommunitiesToBytes (subType : UInt8) (community : List Char) : Except String Buffer :=
  administratedBytes ipaddr (fun type => [type, subType]) community

/-! ## Entries of the extended community attribute -/

/-- The texts `rt:ASN:number` and `soo:ASN:number` by `SUBTYPES`. -/
def communitySubType (name : List Char) : Option UInt8 :=
  if name = "rt".toList then some 2 else if name = "soo".toList then some 3 else none

def unsignedInteger (text : List Char) (max : ℕ) (label : String) : Except String ℕ :=
  match decimal? text with
  | some number =>
    if number ≤ max then .ok number else .error (label ++ "范围为 0 ~ " ++ toString max)
  | none => .error (label ++ "范围为 0 ~ " ++ toString max)

/-- What `parseBase` finds: the text, the type and the bytes of the administrator, and the bound
and the width of the number that is assigned. -/
structure CommunityBase where
  canonical : List Char
  type : UInt8
  administrator : Buffer
  maxAssigned : ℕ
  assignedSize : ℕ

def parseBase (value : List Char) : Except String CommunityBase := do
  let text := trim value
  if '.' ∈ text then
    match text.splitOn '.' with
    | [a, b, c, d] =>
      let bytes ← [a, b, c, d].mapM (unsignedInteger · 255 "Extended Community IPv4地址")
      return ⟨['.'].intercalate (bytes.map (Nat.toDigits 10)), 1, bytes.map UInt8.ofNat, 0xffff, 2⟩
    | _ => .error "Extended Community请输入有效的IPv4地址"
  else
    let number ← unsignedInteger text 0xffffffff "Extended Community ASN"
    if number ≤ 0xffff then
      return ⟨Nat.toDigits 10 number, 0, uintBE 2 number, 0xffffffff, 4⟩
    else return ⟨Nat.toDigits 10 number, 2, uintBE 4 number, 0xffff, 2⟩

/-- An entry of the attribute in normal form and its bytes. -/
structure CommunityEntry where
  canonical : List Char
  bytes : Buffer
  deriving DecidableEq

/-- `parseEntry` of the extended communities -/
def parseCommunityEntry (value : List Char) : Except String CommunityEntry :=
  let parts := value.splitOn ':'
  let name := (parts.headD []).map Char.toLower
  if name = "hex".toList then
    match parts with
    | [_, hex] =>
      if hex.length = 16 ∧ hex.all fun c => (hexValue c).isSome then
        .ok ⟨"hex:".toList ++ hex.map Char.toLower, hexDecode (hex.map Char.toLower)⟩
      else .error "Extended Community原始值必须是8字节（16个十六进制字符）"
    | _ => .error "Extended Community原始值必须是8字节（16个十六进制字符）"
  else
    match communitySubType name, parts with
    | some subType, [_, base, assigned] => do
      let base ← parseBase base
      let assigned ← unsignedInteger assigned base.maxAssigned "Extended Community数值"
      return ⟨name ++ ':' :: base.canonical ++ ':' :: Nat.toDigits 10 assigned,
        base.type :: subType :: base.administrator ++ uintBE base.assignedSize assigned⟩
    | _, _ => .error "Extended Community格式应为 rt:ASN:数值、soo:ASN:数值或 hex:16位十六进制"

def parseEntries (value : List String) : Except String (List CommunityEntry) :=
  (value.flatMap fun input => words input.toList).mapM parseCommunityEntry

def normalizeExtendedCommunities (value : List String) : Except String (List String) := do
  return (← parseEntries value).map fun entry => String.ofList entry.canonical

def encodeExtendedCommunities (value : List String) : Except String Buffer := do
  return (← parseEntries value).flatMap CommunityEntry.bytes

end Bgp
