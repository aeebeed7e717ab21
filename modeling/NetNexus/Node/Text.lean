import NetNexus.Node.Bytes
import Mathlib.Data.List.DropRight

/-!
# Text

The string methods and number conversions that the wire codecs use, over lists of characters.
-/

namespace Node

/-- `text.trim()` -/
def trim (text : List Char) : List Char := (text.dropWhile isWhiteSpace).rdropWhile isWhiteSpace

/-- `text.trim().split(/\s+/)` without empty parts -/
def words (text : List Char) : List (List Char) :=
  (text.splitOnP isWhiteSpace).filter fun word => !word.isEmpty

/-- `text.replace(/0x/g, '')` -/
def strip0x : List Char → List Char
  | '0' :: 'x' :: rest => strip0x rest
  | c :: rest => c :: strip0x rest
  | [] => []

/-- `/^\d+$/.test(text)`, with the number that the digits stand for. -/
def decimal? (text : List Char) : Option ℕ :=
  if !text.isEmpty && text.all Char.isDigit then some (Nat.ofDigitChars 10 text 0) else none

/-- `parseInt(text)`, where a prefix `0x` asks for hexadecimal digits. -/
def parseIntAuto (text : List Char) : Option ℤ :=
  let (sign, digits) : ℤ × List Char := match text.dropWhile isWhiteSpace with
    | '-' :: rest => (-1, rest)
    | '+' :: rest => (1, rest)
    | rest => (1, rest)
  let (base, digits) : ℕ × List Char := match digits with
    | '0' :: 'x' :: rest => (16, rest)
    | '0' :: 'X' :: rest => (16, rest)
    | rest => (10, rest)
  let isDigit (c : Char) : Bool := (hexValue c).any (· < base)
  match digits.takeWhile isDigit with
  | [] => none
  | ds => some (sign * ds.foldl (fun acc c => acc * base + (hexValue c).getD 0) 0)

/-! ## Numbers of a fixed width -/

/-- The lowest `width` bytes of a number. -/
def uintBE : ℕ → ℕ → Buffer
  | 0, _ => []
  | width + 1, n => uintBE width (n / 2 ^ 8) ++ [UInt8.ofNat n]

/-- `buf.writeUIntBE(value)` for a width: what is not a number passes the range check and is
written as 0. -/
def writeUIntBE (width : ℕ) (value : Option ℤ) : Except String Buffer :=
  match value with
  | none => .ok (uintBE width 0)
  | some n =>
    if 0 ≤ n ∧ n < 2 ^ (8 * width) then .ok (uintBE width n.toNat) else .error "ERR_OUT_OF_RANGE"

end Node
