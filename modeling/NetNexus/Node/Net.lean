import NetNexus.Node.Bytes

/-!
# Addresses in text

`net.isIPv6` of Node on texts as lists of characters.
-/

namespace Node

/-- `text.split('::')` -/
def splitDouble : List Char → List (List Char)
  | ':' :: ':' :: rest => [] :: splitDouble rest
  | c :: rest =>
    match splitDouble rest with
    | part :: parts => (c :: part) :: parts
    | [] => [[c]]
  | [] => [[]]

/-- One to four hexadecimal digits. -/
def isHexGroup (text : List Char) : Bool :=
  text ≠ [] && text.length ≤ 4 && text.all fun c => (hexValue c).isSome

/-- A number below 256 without leading zeros. -/
def isOctet (text : List Char) : Bool :=
  (List.range 256).any fun n => text = Nat.toDigits 10 n

/-- `net.isIPv4` -/
def isIPv4 (text : List Char) : Bool :=
  (text.splitOn '.').length = 4 && (text.splitOn '.').all isOctet

/-- The number of groups in a part without `::`, whose end may be an IPv4 address in place of two
groups. -/
def countGroups (embedded : Bool) (part : List Char) : Option ℕ :=
  let groups := part.splitOn ':'
  if part = [] then some 0
  else if groups.all isHexGroup then some groups.length
  else if embedded && groups.dropLast.all isHexGroup && groups.getLast?.any isIPv4 then
    some (groups.length + 1)
  else none

/-- A zone such as `%eth0`. -/
def isZone : List Char → Bool
  | '%' :: zone => zone ≠ [] && zone.all fun c => c.isAlphanum || c = '-' || c = '.' || c = ':'
  | text => text = []

/-- `net.isIPv6` -/
def isIPv6 (text : List Char) : Bool :=
  isZone (text.dropWhile (· ≠ '%')) &&
    match splitDouble (text.takeWhile (· ≠ '%')) with
    | [whole] => countGroups true whole = some 8
    | [left, right] =>
      ((countGroups false left).bind fun l => (countGroups true right).map (l + ·)).any (· ≤ 7)
    | _ => false

end Node
