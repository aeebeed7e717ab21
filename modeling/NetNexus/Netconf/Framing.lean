import NetNexus.Node.Buffer
import NetNexus.Stream.Decoder

/-!
# NETCONF message framing

The two framers of the NETCONF client: end-of-message delimiters for base version 1.0 and chunked
framing for base version 1.1. Each framer is an incremental decoder: `next` is the body of the
loop in its `push` method, and `push` is the loop itself.
-/

namespace Netconf

open Node Stream

/-- `NETCONF_10_DELIMITER`, the bytes of `]]>]]>`. -/
def delimiter : Buffer := [0x5D, 0x5D, 0x3E, 0x5D, 0x5D, 0x3E]

def defaultMaxMessageSize : ℕ := 64 * 1024 * 1024

def defaultMaxChunkSize : ℕ := 16 * 1024 * 1024

/-- The `code` of a `NetconfFramingError`. -/
inductive FramingCode where
  | messageTooLarge
  | invalidChunkHeader
  | invalidEndMarker
  | emptyChunkedMessage
  | invalidChunkSize
  | chunkTooLarge
  | incompleteMessage
  deriving DecidableEq, Repr

/-- The error of a framer. -/
structure FramingError where
  message : String
  code : FramingCode
  deriving DecidableEq, Repr

/-- Constructor options; an absent or zero size selects the default. -/
structure FramerOptions where
  maxMessageSize : ℕ := 0
  maxChunkSize : ℕ := 0

/-- The JavaScript `a || b` on sizes. -/
def orDefault (a b : ℕ) : ℕ := if a = 0 then b else a

/-! ## Base version 1.0 -/

/-- The framer of base version 1.0. -/
structure DelimiterFramer where
  maxMessageSize : ℕ

def DelimiterFramer.create (options : FramerOptions) : DelimiterFramer where
  maxMessageSize := orDefault options.maxMessageSize defaultMaxMessageSize

namespace DelimiterFramer

variable (f : DelimiterFramer)

def tooLarge : FramingError where
  message := s!"NETCONF 1.0 message exceeds {f.maxMessageSize} bytes"
  code := .messageTooLarge

/-- One round of the loop in `push`. -/
def next (buffer : Buffer) : Verdict Unit String FramingError :=
  match indexOf delimiter buffer with
  | none =>
    if buffer.length > f.maxMessageSize + delimiter.length - 1 then .fail () f.tooLarge
    else .wait
  | some delimiterIndex =>
    if delimiterIndex > f.maxMessageSize then .fail () f.tooLarge
    else
      .take (delimiterIndex + delimiter.length) () (some (utf8Decode (buffer.take delimiterIndex)))

def decoder : Decoder UInt8 Unit String FramingError := ⟨fun _ => f.next⟩

def initial : Buffered UInt8 Unit := ⟨(), []⟩

end DelimiterFramer

/-! ## Base version 1.1 -/

/-- What a `ChunkedFramer` holds besides its buffer. -/
structure PartialMessage where
  messageChunks : List Buffer
  messageSize : ℕ
  expectedChunkSize : Option ℕ
  size_eq : messageSize = messageChunks.flatten.length
  expected_pos : ∀ n ∈ expectedChunkSize, 0 < n

namespace PartialMessage

def empty : PartialMessage where
  messageChunks := []
  messageSize := 0
  expectedChunkSize := none
  size_eq := rfl
  expected_pos := by simp

def addChunk (p : PartialMessage) (body : Buffer) : PartialMessage where
  messageChunks := p.messageChunks ++ [body]
  messageSize := p.messageSize + body.length
  expectedChunkSize := none
  size_eq := by simp [p.size_eq]
  expected_pos := by simp

/-- A chunk header has announced `n` bytes. -/
def expect (p : PartialMessage) (n : ℕ) (hn : 0 < n) : PartialMessage where
  messageChunks := p.messageChunks
  messageSize := p.messageSize
  expectedChunkSize := some n
  size_eq := p.size_eq
  expected_pos := by simpa using hn

end PartialMessage

/-- The test `/^[1-9][0-9]*$/`. -/
def isSizeText : List Char → Bool
  | [] => false
  | c :: cs => c.isDigit && c != '0' && cs.all Char.isDigit

/-- `Number(sizeText)` on a text of digits. Above `2 ^ 53` the source works with a rounded value,
which is then as much too large as the exact one. -/
def sizeNumber (text : List Char) : ℕ := Nat.ofDigitChars 10 text 0

theorem sizeNumber_pos {text : List Char} (h : isSizeText text) : 0 < sizeNumber text := by
  cases text with
  | nil => cases h
  | cons c cs =>
    simp only [isSizeText, Bool.and_eq_true, bne_iff_ne] at h
    obtain ⟨⟨hd, h0⟩, -⟩ := h
    have hc : 0 < c.toNat - '0'.toNat := by
      simp only [Char.isDigit, Bool.and_eq_true, decide_eq_true_eq] at hd
      have hne : c.toNat ≠ '0'.toNat := fun he => h0 (Char.toNat_inj.mp he)
      have h48 : '0'.toNat ≤ c.toNat := hd.1
      omega
    rw [sizeNumber, Nat.ofDigitChars_cons, Nat.ofDigitChars_eq_ofDigitChars_zero]
    have hpow : 0 < 10 ^ cs.length := Nat.pow_pos (by decide)
    have := Nat.mul_pos hpow (show 0 < 10 * 0 + (c.toNat - '0'.toNat) by omega)
    omega

/-- The framer of base version 1.1. -/
structure ChunkedFramer where
  maxMessageSize : ℕ
  maxChunkSize : ℕ

def ChunkedFramer.create (options : FramerOptions) : ChunkedFramer where
  maxMessageSize := orDefault options.maxMessageSize defaultMaxMessageSize
  maxChunkSize := orDefault options.maxChunkSize
    (min (orDefault options.maxMessageSize defaultMaxMessageSize) defaultMaxChunkSize)

namespace ChunkedFramer

variable (f : ChunkedFramer)

/-- The part of a round that reads the chunk size of a header line, `text` being the bytes
between `LF #` and the next `LF`. -/
def readSize (p : PartialMessage) (text : Buffer) : Verdict PartialMessage String FramingError :=
  let sizeText := asciiDecode text
  if h : isSizeText sizeText then
    let chunkSize := sizeNumber sizeText
    if chunkSize > 0xFFFFFFFF then
      .fail p ⟨s!"NETCONF 1.1 chunk size is outside the RFC 6242 range: {String.ofList sizeText}",
        .invalidChunkSize⟩
    else if chunkSize > f.maxChunkSize then
      .fail p ⟨s!"NETCONF 1.1 chunk exceeds {f.maxChunkSize} bytes", .chunkTooLarge⟩
    else if p.messageSize + chunkSize > f.maxMessageSize then
      .fail p ⟨s!"NETCONF 1.1 message exceeds {f.maxMessageSize} bytes", .messageTooLarge⟩
    else
      .take (text.length + 3) (p.expect chunkSize (sizeNumber_pos h)) none
  else
    .fail p ⟨s!"Malformed NETCONF 1.1 chunk size: {jsonStringify sizeText}", .invalidChunkSize⟩

/-- One round of the loop in `push`. -/
def next (p : PartialMessage) (buffer : Buffer) : Verdict PartialMessage String FramingError :=
  match p.expectedChunkSize with
  | some n =>
    if buffer.length < n then .wait else .take n (p.addChunk (buffer.take n)) none
  | none =>
    match buffer with
    | [] => .wait
    | b0 :: rest =>
      if b0 ≠ 0x0A then
        .fail p ⟨"Malformed NETCONF 1.1 framing: chunk header must start with LF",
          .invalidChunkHeader⟩
      else match rest with
        | b1 :: b2 :: rest =>
          if b1 ≠ 0x23 then
            .fail p ⟨"Malformed NETCONF 1.1 framing: LF must be followed by #",
              .invalidChunkHeader⟩
          else if b2 = 0x23 then
            match rest with
            | [] => .wait
            | b3 :: _ =>
              if b3 ≠ 0x0A then
                .fail p ⟨"Malformed NETCONF 1.1 framing: end marker must be LF##LF",
                  .invalidEndMarker⟩
              else if p.messageChunks = [] then
                .fail p
                  ⟨"Malformed NETCONF 1.1 framing: an empty chunked message is not allowed",
                    .emptyChunkedMessage⟩
              else
                .take 4 .empty (some (utf8Decode (concat p.messageChunks p.messageSize)))
          else
            -- `lineEnd` is counted from the byte after `LF #`
            match (b2 :: rest).findIdx? (· == 0x0A) with
            | none =>
              if buffer.length > 14 then
                .fail p ⟨"Malformed NETCONF 1.1 framing: chunk size header is too long",
                  .invalidChunkSize⟩
              else .wait
            | some lineEnd => f.readSize p ((b2 :: rest).take lineEnd)
        | _ => .wait

def decoder : Decoder UInt8 PartialMessage String FramingError := ⟨f.next⟩

def initial : Buffered UInt8 PartialMessage := ⟨.empty, []⟩

end ChunkedFramer

/-! ## Encoders -/

def encodeDelimiter (body : Buffer) : Buffer := body ++ delimiter

/-- The header line of a chunk of `n` bytes. -/
def chunkHeader (n : ℕ) : Buffer := asciiEncode (['\n', '#'] ++ Nat.toDigits 10 n ++ ['\n'])

/-- The bytes of `LF ## LF`. -/
def endMarker : Buffer := [0x0A, 0x23, 0x23, 0x0A]

/-- The loop of `encodeChunked` from some offset on: `rest` is what is left of the body. -/
def encodeChunks (chunkSize : ℕ) : ℕ → Buffer → Buffer
  | 0, _ => []
  | fuel + 1, rest =>
    if rest = [] then []
    else
      chunkHeader (rest.take chunkSize).length ++ rest.take chunkSize ++
        encodeChunks chunkSize fuel (rest.drop chunkSize)

/-- How `encodeChunked` can fail. -/
inductive EncodeError where
  | framing (e : FramingError)
  | type (message : String)
  deriving DecidableEq, Repr

/-- `encodeChunked`; `chunkSize = 0` stands for an absent option. -/
def encodeChunked (body : Buffer) (chunkSize : ℕ) : Except EncodeError Buffer :=
  if body.length = 0 then
    .error (.framing ⟨"NETCONF 1.1 cannot encode an empty message", .emptyChunkedMessage⟩)
  else
    let requestedChunkSize := orDefault chunkSize body.length
    if requestedChunkSize > 0xFFFFFFFF then
      .error (.type "chunkSize must be an integer between 1 and 4294967295")
    else
      .ok (encodeChunks requestedChunkSize body.length body ++ endMarker)

end Netconf
