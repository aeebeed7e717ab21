import NetNexus.Node.Net
import NetNexus.Ip.IpUtils

/-!
# IPv6 addresses

The address functions of `dhcp6Worker` on buffers of sixteen bytes.
-/

namespace Dhcp6

open Node

/-- `parseInt(text, 16)` of a text that starts with a hexadecimal digit. -/
def parseHex (text : List Char) : ℕ :=
  (text.takeWhile fun c => (hexValue c).isSome).foldl
    (fun acc c => acc * 16 + (hexValue c).getD 0) 0

/-- The groups of `ipv6ToBuffer`, with those that `::` stands for. -/
def expandGroups (addr : List Char) : List (List Char) :=
  let split (half : List Char) := if half = [] then [] else half.splitOn ':'
  match splitDouble addr with
  | [left, right] =>
    split left ++ List.replicate (8 - (split left).length - (split right).length) ['0'] ++
      split right
  | _ => addr.splitOn ':'

/-- `ipv6ToBuffer`, which throws on what is no address. -/
def ipv6ToBuffer (addr : List Char) : Option Buffer :=
  if isIPv6 addr then
    some ((List.range 8).flatMap fun i => uint16be (parseHex ((expandGroups addr).getD i ['0'])))
  else none

/-- Where the longest run of zero groups starts and how long it is, and the same for the run that
the loop is in. Outside of a run `curLen` is zero. -/
structure Zeros where
  bestStart : ℕ := 0
  bestLen : ℕ := 0
  curStart : ℕ := 0
  curLen : ℕ := 0

/-- One round of the search for the longest run of zeros. -/
def Zeros.next (zeros : Zeros) (i group : ℕ) : Zeros :=
  if group = 0 then
    let curStart := if zeros.curLen = 0 then i else zeros.curStart
    let curLen := zeros.curLen + 1
    if zeros.bestLen < curLen then ⟨curStart, curLen, curStart, curLen⟩
    else { zeros with curStart := curStart, curLen := curLen }
  else { zeros with curLen := 0 }

def findZeros (groups : List ℕ) : Zeros :=
  groups.zipIdx.foldl (fun zeros (group, i) => zeros.next i group) {}

/-- `groups.join(':')` with the groups in hexadecimal digits. -/
def joinHex (groups : List ℕ) : List Char := [':'].intercalate (groups.map (Nat.toDigits 16))

/-- The text of groups, with the longest run of zeros left out if it has more than one. -/
def groupsText (groups : List ℕ) : List Char :=
  let zeros := findZeros groups
  if 1 < zeros.bestLen then
    joinHex (groups.take zeros.bestStart) ++ [':', ':'] ++
      joinHex (groups.drop (zeros.bestStart + zeros.bestLen))
  else joinHex groups

def bufferToIpv6 (buf : Buffer) : List Char := groupsText (Ip.segments buf)

/-- The loop of `incrementIpv6`, from the last byte on. -/
def incrementBytes : Buffer → Buffer
  | [] => []
  | b :: rest => if b < 255 then (b + 1) :: rest else 0 :: incrementBytes rest

def incrementIpv6 (buf : Buffer) : Buffer := (incrementBytes buf.reverse).reverse

/-- `Buffer.compare` -/
def compareBuffers : Buffer → Buffer → Ordering
  | [], [] => .eq
  | [], _ :: _ => .lt
  | _ :: _, [] => .gt
  | a :: as, b :: bs => if a < b then .lt else if b < a then .gt else compareBuffers as bs

end Dhcp6
