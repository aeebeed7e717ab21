import NetNexus.Netconf.Framing

/-!
# The framed streams

What a framer is there to recognise, said about the bytes alone: the complete messages of each
framing and the heads at which a framer rejects its input.
-/

namespace Netconf

open Node

namespace DelimiterFramer

variable (f : DelimiterFramer)

/-- The delimiter stands at offset `i`. -/
def DelimiterAt (bytes : Buffer) (i : ℕ) : Prop := delimiter <+: bytes.drop i

instance (bytes : Buffer) (i : ℕ) : Decidable (DelimiterAt bytes i) :=
  inferInstanceAs (Decidable (delimiter <+: bytes.drop i))

/-- The bytes of one message of acceptable size: the body and the delimiter that ends it. -/
def IsFrame (bytes body : Buffer) : Prop :=
  bytes = body ++ delimiter ∧ body.length ≤ f.maxMessageSize ∧
    ∀ i < body.length, ¬ DelimiterAt bytes i

/-- More bytes than the largest message needs, and no delimiter that ends one in time. -/
def Rejected (bytes : Buffer) : Prop :=
  f.maxMessageSize + delimiter.length ≤ bytes.length ∧
    ∀ i ≤ f.maxMessageSize, ¬ DelimiterAt bytes i

/-- A complete message, perhaps more of them, and then input that is rejected. -/
def MessageThenRejected (stream : Buffer) : Prop :=
  ∃ (frames : List Buffer) (bad : Buffer), stream = frames.flatten ++ bad ∧ frames ≠ [] ∧
    (∀ bytes ∈ frames, ∃ body, f.IsFrame bytes body) ∧ f.Rejected bad

end DelimiterFramer

namespace ChunkedFramer

variable (f : ChunkedFramer)

/-- The text between `LF #` and `LF` announces a chunk that may follow `size` bytes. -/
structure GoodSize (size : ℕ) (text : Buffer) : Prop where
  isSizeText : isSizeText (asciiDecode text)
  le_max : sizeNumber (asciiDecode text) ≤ 0xFFFFFFFF
  le_maxChunkSize : sizeNumber (asciiDecode text) ≤ f.maxChunkSize
  le_maxMessageSize : size + sizeNumber (asciiDecode text) ≤ f.maxMessageSize

/-- A sequence of acceptable chunks of one message, after `size` bytes of it. -/
inductive Chunks : ℕ → Buffer → List Buffer → Prop where
  | nil (size : ℕ) : Chunks size [] []
  | cons {size : ℕ} {text body bytes : Buffer} {bodies : List Buffer}
      (htext : f.GoodSize size text) (hbody : body.length = sizeNumber (asciiDecode text))
      (h : Chunks (size + body.length) bytes bodies) :
      Chunks size (0x0A :: 0x23 :: (text ++ 0x0A :: (body ++ bytes))) (body :: bodies)

/-- The bytes of one message: its chunks, at least one, and the end marker. -/
def IsFrame (bytes body : Buffer) : Prop :=
  ∃ chunks bodies, bytes = chunks ++ endMarker ∧ f.Chunks 0 chunks bodies ∧ bodies ≠ [] ∧
    body = bodies.flatten

/-- A line that could hold a chunk size: it is not the start of an end marker. -/
def IsLine (text : Buffer) : Prop := 0x0A ∉ text ∧ text.head? ≠ some 0x23

/-- The heads at which the framer gives up where a chunk header or an end marker has to stand,
after the chunks `bodies` of the message. -/
inductive BadHeader (bodies : List Buffer) : Buffer → Prop where
  | notLineFeed {b : UInt8} (h : b ≠ 0x0A) (rest : Buffer) : BadHeader bodies (b :: rest)
  | notHash {b : UInt8} (h : b ≠ 0x23) (b' : UInt8) (rest : Buffer) :
      BadHeader bodies (0x0A :: b :: b' :: rest)
  | endMarker {b : UInt8} (h : b ≠ 0x0A) (rest : Buffer) :
      BadHeader bodies (0x0A :: 0x23 :: 0x23 :: b :: rest)
  | emptyMessage (h : bodies = []) (rest : Buffer) :
      BadHeader bodies (0x0A :: 0x23 :: 0x23 :: 0x0A :: rest)
  | longLine {text : Buffer} (h : IsLine text) (hlen : 12 < text.length) :
      BadHeader bodies (0x0A :: 0x23 :: text)
  | size {text : Buffer} (h : IsLine text) (hsize : ¬ f.GoodSize bodies.flatten.length text)
      (rest : Buffer) : BadHeader bodies (0x0A :: 0x23 :: (text ++ 0x0A :: rest))

/-- Input that is rejected inside its first message. -/
def Rejected (bytes : Buffer) : Prop :=
  ∃ chunks bodies bad, bytes = chunks ++ bad ∧ f.Chunks 0 chunks bodies ∧ f.BadHeader bodies bad

/-- A complete message, perhaps more of them, and then input that is rejected. -/
def MessageThenRejected (stream : Buffer) : Prop :=
  ∃ (frames : List Buffer) (bad : Buffer), stream = frames.flatten ++ bad ∧ frames ≠ [] ∧
    (∀ bytes ∈ frames, ∃ body, f.IsFrame bytes body) ∧ f.Rejected bad

end ChunkedFramer

end Netconf
