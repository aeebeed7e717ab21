import NetNexus.Node.Bytes
import Mathlib.Data.List.DropRight

/-!
# RADIUS packets

`radiusUtils.js`: packets are built and parsed, and their authenticators are computed and verified.
MD5 and HMAC-MD5 are parameters.
-/

namespace Radius

open Node

/-- An authenticator or a digest. -/
abbrev Digest := {bytes : Buffer // bytes.length = 16}

theorem length_zeros : (List.replicate 16 0 : Buffer).length = 16 := rfl

/-- `Buffer.alloc(16)`. -/
def zeros : Digest := ⟨List.replicate 16 0, length_zeros⟩

/-- The two hash functions. -/
structure Hashes where
  md5 : Buffer → Digest
  /-- The digest for a key and data. -/
  hmacMd5 : Buffer → Buffer → Digest

/-- An attribute without its length. -/
structure Attribute where
  type : UInt8
  value : Buffer
  deriving DecidableEq

/-- The type of a Message-Authenticator. -/
def messageAuthenticator : UInt8 := 80

def minPacketLength : ℕ := 20

def maxPacketLength : ℕ := 4096

/-- The key of a shared secret. -/
def normalizeSecret (secret : String) : Except String Buffer :=
  if secret = "" then .error "RADIUS shared secret cannot be empty" else .ok (utf8Encode secret)

/-! ## Encoding and parsing -/

/-- Type, length and value. -/
def Attribute.bytes (a : Attribute) : Buffer :=
  a.type :: UInt8.ofNat (2 + a.value.length) :: a.value

/-- An attribute, if it can be encoded. -/
def encodeAttribute (a : Attribute) : Except String Buffer :=
  if a.type = 0 then .error s!"Invalid RADIUS attribute type: {a.type}"
  else if 253 < a.value.length then
    .error s!"RADIUS attribute {a.type} is longer than 253 octets"
  else .ok a.bytes

/-- The attributes one after the other. -/
def encodeAttributes (attributes : List Attribute) : Except String Buffer :=
  List.flatten <$> attributes.mapM encodeAttribute

/-- The first 20 bytes of a packet. -/
def header (code identifier : UInt8) (length : ℕ) (authenticator : Digest) :
    Except String Buffer := do
  let length ← writeUInt16BE length
  return code :: identifier :: (length ++ authenticator.val)

/-- A packet; without an authenticator there are zeros. -/
def buildPacket (code identifier : UInt8) (authenticator : Option Digest)
    (attributes : List Attribute) : Except String Buffer := do
  let attrs ← encodeAttributes attributes
  let length := minPacketLength + attrs.length
  if maxPacketLength < length then
    .error s!"RADIUS packet is longer than {maxPacketLength} octets"
  else
    let header ← header code identifier length (authenticator.getD zeros)
    return header ++ attrs

/-- The attributes from an offset on. -/
def parseAttributes : Buffer → Except String (List Attribute)
  | [] => .ok []
  | [_] => .error "RADIUS attribute header is truncated"
  | type :: attrLength :: rest =>
    if attrLength.toNat < 2 then
      .error s!"Invalid RADIUS attribute length {attrLength} for type {type}"
    else if rest.length + 2 < attrLength.toNat then
      .error s!"RADIUS attribute {type} extends beyond packet length"
    else
      (⟨type, rest.take (attrLength.toNat - 2)⟩ :: ·) <$>
        parseAttributes (rest.drop (attrLength.toNat - 2))
termination_by bytes => bytes.length
decreasing_by grind

/-- What is read of a datagram. -/
structure Packet where
  code : UInt8
  identifier : UInt8
  length : ℕ
  authenticator : Buffer
  attributes : List Attribute
  raw : Buffer
  paddingLength : ℕ

/-- What is read of a datagram. What follows the length is padding. -/
def parsePacket (buffer : Buffer) : Except String Packet :=
  if buffer.length < minPacketLength then
    .error s!"RADIUS packet shorter than {minPacketLength} octets"
  else
    let length := ofBytes ((buffer.drop 2).take 2)
    if length < minPacketLength ∨ maxPacketLength < length then
      .error s!"Invalid RADIUS packet length: {length}"
    else if buffer.length < length then
      .error s!"RADIUS packet truncated: expected {length}, got {buffer.length}"
    else
      let raw := buffer.take length
      (fun attributes =>
        { code := buffer.getD 0 0
          identifier := buffer.getD 1 0
          length
          authenticator := (raw.drop 4).take 16
          attributes
          raw
          paddingLength := buffer.length - length }) <$>
        parseAttributes (raw.drop minPacketLength)

/-! ## Message-Authenticators -/

/-- The packet with another authenticator. -/
def replaceAuthenticator (packet : Buffer) (authenticator : Digest) : Buffer :=
  packet.take 4 ++ (authenticator.val ++ packet.drop minPacketLength)

/-- The walk over the attributes from an offset on. It writes a value into every
Message-Authenticator, or ends at the first one. At an attribute of length 0 it stays for ever. -/
def writeFrom (value : Digest) (every : Bool) : Buffer → Except String Buffer
  | [] => .ok []
  | [_] => .error "ERR_OUT_OF_RANGE"
  | type :: length :: rest =>
    if type = messageAuthenticator ∧ length = 18 then
      if !every then .ok (type :: length :: (value.val.take rest.length ++ rest.drop 16))
      else if rest.length < 16 then .error "ERR_OUT_OF_RANGE"
      else (type :: length :: value.val ++ ·) <$> writeFrom value every (rest.drop 16)
    else if length.toNat = 0 then .error "endless loop"
    else
      ((type :: length :: rest).take length.toNat ++ ·) <$>
        writeFrom value every ((type :: length :: rest).drop length.toNat)
termination_by bytes => bytes.length
decreasing_by all_goals grind

/-- The packet with zeros in every Message-Authenticator. -/
def zeroMessageAuthenticator (packet : Buffer) : Except String Buffer :=
  (packet.take minPacketLength ++ ·) <$> writeFrom zeros true (packet.drop minPacketLength)

/-- The packet with a value in the first Message-Authenticator. -/
def insertMessageAuthenticator (packet : Buffer) (value : Digest) : Except String Buffer :=
  (packet.take minPacketLength ++ ·) <$> writeFrom value false (packet.drop minPacketLength)

/-- One is added if it is asked for and there is none. -/
def withMessageAuthenticator (attributes : List Attribute) (required : Bool) : List Attribute :=
  if !required || attributes.any (·.type = messageAuthenticator) then attributes
  else attributes ++ [⟨messageAuthenticator, zeros.val⟩]

/-! ## Responses and requests -/

variable (h : Hashes)

/-- The digest over a response with the authenticator of its request. -/
def computeResponseAuthenticator (code identifier : UInt8) (requestAuthenticator : Digest)
    (attributes : List Attribute) (secret : String) : Except String Digest := do
  let attrs ← encodeAttributes attributes
  let header ← header code identifier (minPacketLength + attrs.length) requestAuthenticator
  let secret ← normalizeSecret secret
  return h.md5 (header ++ (attrs ++ secret))

/-- The Message-Authenticator of a response is computed and written. -/
def signResponse (packet : Buffer) (requestAuthenticator : Digest) (secret : String) :
    Except String Buffer := do
  let hmacPacket ← zeroMessageAuthenticator (replaceAuthenticator packet requestAuthenticator)
  let key ← normalizeSecret secret
  insertMessageAuthenticator packet (h.hmacMd5 key hmacPacket)

/-- A response to a request with the given authenticator. -/
def buildResponsePacket (code identifier : UInt8) (requestAuthenticator : Digest)
    (attributes : List Attribute) (secret : String) (includeMessageAuthenticator : Bool) :
    Except String Buffer := do
  let responseAttrs := withMessageAuthenticator attributes includeMessageAuthenticator
  let packet ← buildPacket code identifier (some requestAuthenticator) responseAttrs
  let packet ← (if includeMessageAuthenticator then
    signResponse h packet requestAuthenticator secret else .ok packet)
  let header ← header code identifier packet.length requestAuthenticator
  let secret ← normalizeSecret secret
  return replaceAuthenticator packet (h.md5 (header ++ (packet.drop minPacketLength ++ secret)))

/-- The digest over a request with an authenticator of zeros. -/
def computeAccountingRequestAuthenticator (code identifier : UInt8)
    (attributes : List Attribute) (secret : String) : Except String Digest :=
  computeResponseAuthenticator h code identifier zeros attributes secret

/-- A request whose authenticator is a digest over it. -/
def buildAccountingLikeRequestPacket (code identifier : UInt8) (attributes : List Attribute)
    (secret : String) (includeMessageAuthenticator : Bool) : Except String Buffer := do
  let attrs := withMessageAuthenticator attributes includeMessageAuthenticator
  let requestAuth ← computeAccountingRequestAuthenticator h code identifier attrs secret
  let packet ← buildPacket code identifier (some requestAuth) attrs
  if includeMessageAuthenticator then
    let zeroed ← zeroMessageAuthenticator packet
    let key ← normalizeSecret secret
    let mac := h.hmacMd5 key (replaceAuthenticator zeroed zeros)
    let packet ← insertMessageAuthenticator packet mac
    let parsed ← parsePacket packet
    let requestAuth ←
      computeAccountingRequestAuthenticator h code identifier parsed.attributes secret
    return replaceAuthenticator packet requestAuth
  else return packet

/-! ## User-Passwords -/

/-- The bytes of a block, each with the byte of a digest. -/
def mask (block : Buffer) (digest : Digest) : Buffer := block.zipWith (· ^^^ ·) digest.val

/-- The loop of `encryptUserPassword` over the blocks that are left. -/
def encryptBlocks (secret : Buffer) : ℕ → Buffer → Buffer → Buffer
  | 0, _, _ => []
  | count + 1, previous, padded =>
    let cipher := mask (padded.take 16) (h.md5 (secret ++ previous))
    cipher ++ encryptBlocks secret count cipher (padded.drop 16)

/-- The password, padded to whole blocks and masked block by block. -/
def encryptUserPassword (password secret : String) (requestAuthenticator : Digest) :
    Except String Buffer :=
  let passwordBuffer := utf8Encode password
  if 128 < passwordBuffer.length then .error "RADIUS User-Password cannot exceed 128 octets"
  else do
    let paddedLength := max 16 ((passwordBuffer.length + 15) / 16 * 16)
    let padded := passwordBuffer ++ List.replicate (paddedLength - passwordBuffer.length) 0
    let secret ← normalizeSecret secret
    return encryptBlocks h secret (padded.length / 16) requestAuthenticator.val padded

/-- The loop of `decryptUserPassword` over the blocks that are left. -/
def decryptBlocks (secret : Buffer) : ℕ → Buffer → Buffer → Buffer
  | 0, _, _ => []
  | count + 1, previous, encrypted =>
    let cipher := encrypted.take 16
    mask cipher (h.md5 (secret ++ previous)) ++
      decryptBlocks secret count cipher (encrypted.drop 16)

/-- The password without the zeros at its end. -/
def decryptUserPassword (encrypted : Buffer) (secret : String) (requestAuthenticator : Digest) :
    Except String String :=
  if encrypted.length < 16 ∨ 128 < encrypted.length ∨ encrypted.length % 16 ≠ 0 then
    .error "Invalid RADIUS User-Password attribute length"
  else do
    let secret ← normalizeSecret secret
    let plain := decryptBlocks h secret (encrypted.length / 16) requestAuthenticator.val encrypted
    return String.ofList ((utf8Decode plain).toList.rdropWhile (· = Char.ofNat 0))

/-! ## Verification -/

variable (packet : Packet) (secret : String)

/-- `verifyResponse` of the client. -/
def verifyResponse (requestAuthenticator : Digest) (secret : String) :
    Except String Bool :=
  (·.val = packet.authenticator) <$> computeResponseAuthenticator h packet.code packet.identifier
    requestAuthenticator packet.attributes secret

/-- The authenticator is the digest over the request. -/
def verifyAccountingLikeRequest : Except String Bool :=
  (·.val = packet.authenticator) <$> computeAccountingRequestAuthenticator h packet.code
    packet.identifier packet.attributes secret

/-- The value that the Message-Authenticator should have. -/
def computeAccessMessageAuthenticator
    (requestAuthenticator : Option Digest) : Except String Digest := do
  let zeroed ← zeroMessageAuthenticator packet.raw
  let hmacPacket := (requestAuthenticator.map (replaceAuthenticator zeroed)).getD zeroed
  let key ← normalizeSecret secret
  return h.hmacMd5 key hmacPacket

/-- The first Message-Authenticator has the value. -/
def verifyMessageAuthenticator (computed : Except String Digest) :
    Except String Bool :=
  match packet.attributes.find? (·.type = messageAuthenticator) with
  | some item => if item.value.length ≠ 16 then .ok false else (·.val = item.value) <$> computed
  | none => .ok false

def verifyAccessMessageAuthenticator
    (requestAuthenticator : Option Digest) : Except String Bool :=
  verifyMessageAuthenticator packet
    (computeAccessMessageAuthenticator h packet secret requestAuthenticator)

def computeDynamicRequestMessageAuthenticator :
    Except String Digest :=
  computeAccessMessageAuthenticator h packet secret (some zeros)

def verifyDynamicRequestMessageAuthenticator :
    Except String Bool :=
  verifyMessageAuthenticator packet (computeDynamicRequestMessageAuthenticator h packet secret)

end Radius
