import NetNexus.Node.Buffer

/-!
# Numbers in buffers

Reading and writing big-endian numbers, decoding hexadecimal text and `parseInt`, as Node does
them. A JavaScript number is an integer or, as `none`, not a number.
-/

namespace Node

/-! ## Big-endian numbers -/

def uint16be (n : ℕ) : Buffer := [UInt8.ofNat (n / 2 ^ 8), UInt8.ofNat n]

def uint32be (n : ℕ) : Buffer :=
  [UInt8.ofNat (n / 2 ^ 24), UInt8.ofNat (n / 2 ^ 16), UInt8.ofNat (n / 2 ^ 8), UInt8.ofNat n]

/-- The number that the bytes stand for. -/
def ofBytes (bytes : Buffer) : ℕ := bytes.foldl (fun acc b => acc * 2 ^ 8 + b.toNat) 0

/-- The double that is closest to a natural number, with an even mantissa between two. -/
def double (n : ℕ) : ℕ :=
  let unit := 2 ^ (n.log2 - 52)
  if unit < 2 * (n % unit) ∨ unit = 2 * (n % unit) ∧ n / unit % 2 = 1 then (n / unit + 1) * unit
  else n / unit * unit

/-- The number that the bytes stand for, added up in doubles. -/
def doubleOfBytes (bytes : Buffer) : ℕ :=
  bytes.foldl (fun acc b => double (acc * 2 ^ 8 + b.toNat)) 0

/-- `buf.readUInt16BE(offset)`; `none` if it throws. -/
def readUInt16BE (buf : Buffer) (offset : ℕ) : Option ℕ :=
  if offset + 2 ≤ buf.length then some (ofBytes ((buf.drop offset).take 2)) else none

/-- `buf.readUInt32BE(offset)`; `none` if it throws. -/
def readUInt32BE (buf : Buffer) (offset : ℕ) : Option ℕ :=
  if offset + 4 ≤ buf.length then some (ofBytes ((buf.drop offset).take 4)) else none

/-- The bytes that `buf.writeUInt16BE(value)` writes. -/
def writeUInt16BE (value : ℕ) : Except String Buffer :=
  if value ≤ 0xFFFF then .ok (uint16be value)
  else .error "ERR_OUT_OF_RANGE"

/-- The bytes that `buf.writeUInt32BE(value)` writes. What is not a number passes the range check
and is written as 0. -/
def writeUInt32BE (value : Option ℤ) : Except String Buffer :=
  match value with
  | none => .ok (uint32be 0)
  | some n => if 0 ≤ n ∧ n ≤ 0xFFFFFFFF then .ok (uint32be n.toNat) else .error "ERR_OUT_OF_RANGE"

/-! ## Text -/

def hexValue (c : Char) : Option ℕ :=
  if '0' ≤ c ∧ c ≤ '9' then some (c.toNat - '0'.toNat)
  else if 'a' ≤ c ∧ c ≤ 'f' then some (c.toNat - 'a'.toNat + 10)
  else if 'A' ≤ c ∧ c ≤ 'F' then some (c.toNat - 'A'.toNat + 10)
  else none

/-- `Buffer.from(text, 'hex')`, which stops at the first pair that is not hexadecimal. -/
def hexDecode : List Char → Buffer
  | a :: b :: rest =>
    match hexValue a, hexValue b with
    | some high, some low => UInt8.ofNat (high * 16 + low) :: hexDecode rest
    | _, _ => []
  | _ => []

/-- `buf.toString('hex')` -/
def hexEncode (bytes : Buffer) : List Char :=
  bytes.flatMap fun b => [(b.toNat / 16).digitChar, (b.toNat % 16).digitChar]

/-- The characters that JavaScript strips as white space. -/
def isWhiteSpace (c : Char) : Bool :=
  c.toNat ∈ [0x09, 0x0A, 0x0B, 0x0C, 0x0D, 0x20, 0xA0, 0x1680, 0x2028, 0x2029, 0x202F, 0x205F,
    0x3000, 0xFEFF] || (0x2000 ≤ c.toNat && c.toNat ≤ 0x200A)

/-- `parseInt(text, 10)`. -/
def parseInt (text : String) : Option ℤ :=
  let chars := text.toList.dropWhile isWhiteSpace
  let (sign, digits) : ℤ × List Char := match chars with
    | '-' :: rest => (-1, rest)
    | '+' :: rest => (1, rest)
    | rest => (1, rest)
  match digits.takeWhile Char.isDigit with
  | [] => none
  | ds => some (sign * Nat.ofDigitChars 10 ds 0)

/-- `Number.isFinite` of an integer that was read: one that is too large for a number is read as an
infinity. -/
def isFinite (n : ℤ) : Bool := n.natAbs < 2 ^ 1024 - 2 ^ 970

end Node
