import Mathlib.Algebra.Order.Ring.Int
import Mathlib.Data.List.Basic

/-!
# Buffers

The parts of Node's `Buffer` that the framers and the wire codecs use, over lists of bytes.
-/

namespace Node

/-- The bytes of a Node `Buffer`. -/
abbrev Buffer := List UInt8

/-- `buf.indexOf(pattern)`: the first offset at which `pattern` occurs. -/
def indexOf (pattern : Buffer) : Buffer → Option ℕ
  | [] => if pattern = [] then some 0 else none
  | b :: bs => if pattern <+: b :: bs then some 0 else (indexOf pattern bs).map (· + 1)

/-- `Buffer.concat(list, totalLength)`, which cuts off or fills up with zeros. -/
def concat (list : List Buffer) (totalLength : ℕ) : Buffer :=
  (list.flatten ++ List.replicate (totalLength - list.flatten.length) 0).take totalLength

/-! ## Text encodings -/

/-- `buf.toString('ascii')` clears the high bit of every byte. -/
def asciiDecode (buf : Buffer) : List Char :=
  buf.map fun b => Char.ofNat (b.toNat % 128)

/-- `Buffer.from(text, 'ascii')` keeps the low byte of every character. -/
def asciiEncode (text : List Char) : Buffer :=
  text.map fun c => UInt8.ofNat c.toNat

/-- The state of the UTF-8 decoder inside a sequence: how many continuation bytes are missing,
the bits seen so far and the range in which the next byte has to lie. -/
structure Utf8State where
  needed : ℕ
  codePoint : ℕ
  lower : ℕ := 0x80
  upper : ℕ := 0xBF

/-- The character that stands for a malformed sequence. -/
def replacementChar : Char := Char.ofNat 0xFFFD

/-- The first byte of a sequence: the characters it completes and the state it opens. -/
def utf8Lead (b : ℕ) : List Char × Option Utf8State :=
  if b ≤ 0x7F then ([Char.ofNat b], none)
  else if 0xC2 ≤ b ∧ b ≤ 0xDF then ([], some { needed := 1, codePoint := b % 0x20 })
  else if b = 0xE0 then ([], some { needed := 2, codePoint := b % 0x10, lower := 0xA0 })
  else if b = 0xED then ([], some { needed := 2, codePoint := b % 0x10, upper := 0x9F })
  else if 0xE1 ≤ b ∧ b ≤ 0xEF then ([], some { needed := 2, codePoint := b % 0x10 })
  else if b = 0xF0 then ([], some { needed := 3, codePoint := b % 0x08, lower := 0x90 })
  else if b = 0xF4 then ([], some { needed := 3, codePoint := b % 0x08, upper := 0x8F })
  else if 0xF1 ≤ b ∧ b ≤ 0xF3 then ([], some { needed := 3, codePoint := b % 0x08 })
  else ([replacementChar], none)

/-- Decoding with a replacement character for every maximal malformed sequence. -/
def utf8Lossy : Option Utf8State → Buffer → List Char
  | none, [] => []
  | some _, [] => [replacementChar]
  | none, b :: bs =>
    let (out, st) := utf8Lead b.toNat
    out ++ utf8Lossy st bs
  | some st, b :: bs =>
    if st.lower ≤ b.toNat ∧ b.toNat ≤ st.upper then
      let codePoint := st.codePoint * 0x40 + b.toNat % 0x40
      if st.needed = 1 then Char.ofNat codePoint :: utf8Lossy none bs
      else utf8Lossy (some { needed := st.needed - 1, codePoint }) bs
    else
      -- the sequence breaks off here and `b` starts a new one
      let (out, st') := utf8Lead b.toNat
      replacementChar :: out ++ utf8Lossy st' bs

/-- `buf.toString('utf8')`. -/
def utf8Decode (buf : Buffer) : String :=
  (String.fromUTF8? ⟨buf.toArray⟩).getD (String.ofList (utf8Lossy none buf))

/-- `Buffer.from(text)`. -/
def utf8Encode (text : String) : Buffer := text.toUTF8.data.toList

/-- How `JSON.stringify` writes one character of a string. -/
def jsonChar (c : Char) : List Char :=
  if c = '"' then ['\\', '"']
  else if c = '\\' then ['\\', '\\']
  else if c.toNat = 8 then ['\\', 'b']
  else if c = '\t' then ['\\', 't']
  else if c = '\n' then ['\\', 'n']
  else if c.toNat = 12 then ['\\', 'f']
  else if c = '\r' then ['\\', 'r']
  else if c.toNat < 0x20 then
    ['\\', 'u', '0', '0', (c.toNat / 16).digitChar, (c.toNat % 16).digitChar]
  else [c]

/-- `JSON.stringify` of a string. -/
def jsonStringify (text : List Char) : String :=
  String.ofList ('"' :: text.flatMap jsonChar ++ ['"'])

end Node
