import NetNexus.Control.Fallible
import NetNexus.Node.Proofs.BufferProofs
import NetNexus.Node.Proofs.BytesProofs
import NetNexus.Radius.Packet

/-!
# RADIUS packets: what is built parses and verifies

A packet that is built is the concatenation `pack` of its fields. The functions that rewrite parts
of a packet are given on that form, so that a builder and its verifier hash the same bytes.
-/

namespace Radius

open Node List Control

variable {attrs : List Attribute} {code id : UInt8} {auth : Digest}

/-! ## Attributes -/

def encoded (attrs : List Attribute) : Buffer := attrs.flatMap Attribute.bytes

theorem encoded_cons (a : Attribute) (later : List Attribute) : encoded (a :: later) =
    a.type :: UInt8.ofNat (2 + a.value.length) :: (a.value ++ encoded later) := rfl

/-- The length of each attribute fits into one byte. -/
def Short (attrs : List Attribute) : Prop := ∀ a ∈ attrs, a.value.length ≤ 253

theorem toNat_length {n : ℕ} (h : n ≤ 253) : (UInt8.ofNat (2 + n)).toNat = 2 + n := by
  rw [UInt8.toNat_ofNat']
  omega

theorem parseAttributes_eq_ok_iff (bytes : Buffer) :
    parseAttributes bytes = .ok attrs ↔ Short attrs ∧ bytes = encoded attrs := by
  constructor
  · intro h
    fun_induction parseAttributes bytes generalizing attrs with
    | case1 =>
      cases h
      exact ⟨forall_mem_nil _, rfl⟩
    | case2 | case3 | case4 => cases h
    | case5 _ attrLength rest _ _ ih =>
      obtain ⟨_, hlater, rfl⟩ := map_eq_ok.mp h
      obtain ⟨hshort, hrest⟩ := ih hlater
      have hlt := attrLength.toNat_lt
      have htake : (rest.take (attrLength.toNat - 2)).length = attrLength.toNat - 2 := by
        rw [length_take]
        omega
      have hbyte : UInt8.ofNat (2 + (attrLength.toNat - 2)) = attrLength := by
        rw [show 2 + _ = attrLength.toNat by omega, UInt8.ofNat_toNat]
      refine ⟨forall_mem_cons.mpr ⟨htake.trans_le (by omega), hshort⟩, ?_⟩
      rw [encoded_cons, htake, hbyte, ← hrest, take_append_drop]
  · rintro ⟨hshort, rfl⟩
    induction attrs with
    | nil => rw [encoded, flatMap_nil, parseAttributes]
    | cons a _ ih =>
      obtain ⟨ha, hlater⟩ := forall_mem_cons.mp hshort
      rw [encoded_cons, parseAttributes, toNat_length ha, Nat.add_sub_cancel_left, take_left,
        drop_left, ih hlater, if_neg (by omega), if_neg (by rw [length_append]; omega)]
      rfl

/-- The attributes with a value in every Message-Authenticator, or in the first one. -/
def write (value : Digest) (every : Bool) : List Attribute → List Attribute
  | [] => []
  | a :: later =>
    if a.type = messageAuthenticator then
      ⟨a.type, value.val⟩ :: if every then write value every later else later
    else a :: write value every later

/-- The attribute can be encoded, and a Message-Authenticator has 16 bytes. -/
def Attribute.Fits (a : Attribute) : Prop :=
  (a.type ≠ 0 ∧ a.value.length ≤ 253) ∧ (a.type = messageAuthenticator → a.value.length = 16)

theorem write_spec (value : Digest) (every : Bool) (h : ∀ a ∈ attrs, a.Fits) :
    (∀ a ∈ write value every attrs, a.Fits) ∧
      (encoded (write value every attrs)).length = (encoded attrs).length ∧
      writeFrom value every (encoded attrs) = .ok (encoded (write value every attrs)) := by
  induction attrs with
  | nil => exact ⟨forall_mem_nil _, rfl, writeFrom.eq_1 value every⟩
  | cons a later ih =>
    obtain ⟨⟨hitem, hsize⟩, hlater⟩ := forall_mem_cons.mp h
    obtain ⟨hfits, hlen, hwrite⟩ := ih hlater
    by_cases hauth : a.type = messageAuthenticator
    · have hvalue : a.value.length = value.val.length := (hsize hauth).trans value.2.symm
      have hnew : Attribute.Fits ⟨a.type, value.val⟩ := ⟨hvalue ▸ hitem, fun _ => value.2⟩
      have hbyte : UInt8.ofNat (2 + a.value.length) = 18 := by
        rw [hsize hauth]
        rfl
      have hrest : 16 ≤ (a.value ++ encoded later).length := by
        rw [length_append]
        omega
      rw [encoded_cons, writeFrom, if_pos ⟨hauth, hbyte⟩, drop_left' (hsize hauth), write,
        if_pos hauth, encoded_cons, ← hvalue]
      cases every with
      | true =>
        rw [if_neg hrest.not_gt, hwrite]
        refine ⟨forall_mem_cons.mpr ⟨hnew, hfits⟩, ?_, rfl⟩
        simp [length_cons, hlen, hvalue]
      | false =>
        rw [take_of_length_le (value.2.trans_le hrest)]
        refine ⟨forall_mem_cons.mpr ⟨hnew, hlater⟩, ?_, rfl⟩
        simp [length_cons, hvalue]
    · rw [write, if_neg hauth, encoded_cons, encoded_cons, writeFrom, if_neg (fun h => hauth h.1),
        toNat_length hitem.2, Nat.add_comm, drop_succ_cons, drop_succ_cons,
        drop_left, hwrite, take_succ_cons, take_succ_cons, take_left]
      refine ⟨forall_mem_cons.mpr ⟨⟨hitem, hsize⟩, hfits⟩, ?_, rfl⟩
      simp [length_cons, hlen]

theorem write_write (value value' : Digest) :
    write value true (write value' false attrs) = write value true attrs := by
  induction attrs with
  | nil => rfl
  | cons a _ ih =>
    by_cases hauth : a.type = messageAuthenticator <;> simp [write, hauth, ih]

theorem find?_write (value : Digest) (h : attrs.any (·.type = messageAuthenticator)) :
    (write value false attrs).find? (·.type = messageAuthenticator) =
      some ⟨messageAuthenticator, value.val⟩ := by
  induction attrs with
  | nil => cases h
  | cons a _ ih =>
    by_cases hauth : a.type = messageAuthenticator
    · simp [write, hauth]
    · simp only [any_cons, hauth] at h
      simp [write, hauth, ih h]

/-! ## Packets -/

def size (attrs : List Attribute) : ℕ := minPacketLength + (encoded attrs).length

def front (code id : UInt8) (auth : Digest) (attrs : List Attribute) : Buffer :=
  code :: id :: (uint16be (size attrs) ++ auth.val)

/-- The packet with these fields. -/
def pack (code id : UInt8) (auth : Digest) (attrs : List Attribute) : Buffer :=
  front code id auth attrs ++ encoded attrs

/-- The attributes can be encoded and fit into a packet. -/
structure Fit (attrs : List Attribute) : Prop where
  items : ∀ a ∈ attrs, a.type ≠ 0 ∧ a.value.length ≤ 253
  size_le : size attrs ≤ maxPacketLength

theorem length_front : (front code id auth attrs).length = minPacketLength := by
  rw [front, length_cons, length_cons, length_append, length_uint16be, auth.2, minPacketLength]

theorem length_pack : (pack code id auth attrs).length = size attrs := by
  rw [pack, length_append, length_front, size]

theorem drop_pack : (pack code id auth attrs).drop minPacketLength = encoded attrs :=
  drop_left' length_front

theorem replaceAuthenticator_pack (auth' : Digest) :
    replaceAuthenticator (pack code id auth attrs) auth' = pack code id auth' attrs := by
  rw [replaceAuthenticator, drop_pack]
  rfl

theorem parsePacket_pack (hf : Fit attrs) : parsePacket (pack code id auth attrs) =
    .ok ⟨code, id, size attrs, auth.val, attrs, pack code id auth attrs, 0⟩ := by
  have hle := hf.size_le
  have hmin : minPacketLength ≤ size attrs := Nat.le_add_right ..
  have hbytes : ofBytes ((drop 2 (pack code id auth attrs)).take 2) = size attrs :=
    ofBytes_uint16be (hle.trans_lt (by decide))
  have hauth : (drop 4 (pack code id auth attrs)).take 16 = auth.val := take_left' auth.2
  have hparse := (parseAttributes_eq_ok_iff _).mpr ⟨fun a ha => (hf.items a ha).2, rfl⟩
  rw [parsePacket, length_pack, if_neg (by omega)]
  dsimp only
  rw [hbytes, if_neg (by omega), if_neg (by omega), take_of_length_le length_pack.le, drop_pack,
    hauth, hparse, Nat.sub_self]
  rfl

theorem encodeAttributes_eq (hf : Fit attrs) : encodeAttributes attrs = .ok (encoded attrs) := by
  rw [encodeAttributes, mapM_eq_ok]
  · rfl
  · intro a ha
    obtain ⟨htype, _⟩ := hf.items a ha
    rw [encodeAttribute, if_neg htype, if_neg (by omega)]

theorem header_eq (hf : Fit attrs) :
    header code id (size attrs) auth = .ok (front code id auth attrs) := by
  rw [header, writeUInt16BE, if_pos (hf.size_le.trans (by decide))]
  rfl

theorem buildPacket_eq (hf : Fit attrs) (auth : Option Digest) :
    buildPacket code id auth attrs = .ok (pack code id (auth.getD zeros) attrs) := by
  refine bind_ok.mpr ⟨_, encodeAttributes_eq hf, ?_⟩
  rw [← size, if_neg hf.size_le.not_gt]
  exact bind_ok.mpr ⟨_, header_eq hf, rfl⟩

/-! ## Sealed packets -/

/-- The attributes fit into a packet, and every Message-Authenticator has 16 bytes. -/
structure Signable (attrs : List Attribute) : Prop where
  fits : ∀ a ∈ attrs, a.Fits
  size_le : size attrs ≤ maxPacketLength

theorem Signable.fit (hm : Signable attrs) : Fit attrs := ⟨fun a ha => (hm.fits a ha).1, hm.size_le⟩

theorem Signable.write (hm : Signable attrs) (value : Digest) (every : Bool) :
    Signable (write value every attrs) := by
  obtain ⟨hfits, hlen, -⟩ := write_spec value every hm.fits
  exact ⟨hfits, (congrArg _ hlen).trans_le hm.size_le⟩

theorem writeFrom_pack (hm : Signable attrs) (value : Digest) (every : Bool) :
    ((pack code id auth attrs).take minPacketLength ++ ·) <$>
        writeFrom value every ((pack code id auth attrs).drop minPacketLength) =
      .ok (pack code id auth (write value every attrs)) := by
  obtain ⟨-, hlen, hwrite⟩ := write_spec value every hm.fits
  have hsize : size (write value every attrs) = size attrs :=
    congrArg (minPacketLength + ·) hlen
  rw [drop_pack, hwrite, pack, take_left' length_front, pack, front, front, hsize]
  rfl

variable (h : Hashes) {secret : String} {required : Bool}

theorem computeResponseAuthenticator_eq (hs : secret ≠ "") (hf : Fit attrs) :
    computeResponseAuthenticator h code id auth attrs secret =
      .ok (h.md5 (pack code id auth attrs ++ utf8Encode secret)) := by
  refine bind_ok.mpr ⟨_, encodeAttributes_eq hf, bind_ok.mpr ⟨_, header_eq hf, ?_⟩⟩
  refine bind_ok.mpr ⟨_, if_neg hs, ?_⟩
  rw [← append_assoc]
  rfl

/-- The attributes with a Message-Authenticator over the packet, if one is asked for. -/
def signed (code id : UInt8) (auth : Digest) (attrs : List Attribute) (secret : String)
    (required : Bool) : List Attribute :=
  if required then
    write (h.hmacMd5 (utf8Encode secret) (pack code id auth (write zeros true attrs))) false attrs
  else attrs

/-- What both builders produce. A request is sealed with an authenticator of zeros. -/
def sealed (code id : UInt8) (auth : Digest) (attrs : List Attribute) (secret : String)
    (required : Bool) : Buffer :=
  let attrs := signed h code id auth attrs secret required
  pack code id (h.md5 (pack code id auth attrs ++ utf8Encode secret)) attrs

theorem Signable.signed (hm : Signable attrs) :
    Signable (signed h code id auth attrs secret required) := by
  unfold Radius.signed
  split
  · exact hm.write ..
  · exact hm

theorem signResponse_eq (hs : secret ≠ "") (hm : Signable attrs) :
    signResponse h (pack code id auth attrs) auth secret =
      .ok (pack code id auth (signed h code id auth attrs secret true)) := by
  refine bind_ok.mpr ⟨pack code id auth (write zeros true attrs), ?_, ?_⟩
  · rw [replaceAuthenticator_pack]
    exact writeFrom_pack hm ..
  · exact bind_ok.mpr ⟨_, if_neg hs, writeFrom_pack hm ..⟩

theorem any_withMessageAuthenticator :
    (withMessageAuthenticator attrs true).any (·.type = messageAuthenticator) := by
  unfold withMessageAuthenticator
  split
  next h => simpa using h
  next => simp

section

variable (hs : secret ≠ "") (hm : Signable (withMessageAuthenticator attrs required))

include hs hm

theorem buildResponsePacket_eq : buildResponsePacket h code id auth attrs secret required =
      .ok (sealed h code id auth (withMessageAuthenticator attrs required) secret required) := by
  refine bind_ok.mpr ⟨_, buildPacket_eq hm.fit _, ?_⟩
  generalize withMessageAuthenticator attrs required = attrs at hm
  refine bind_ok.mpr ⟨pack code id auth (signed h code id auth attrs secret required), ?_, ?_⟩
  · cases required with
    | true => exact signResponse_eq h hs hm
    | false => rfl
  · rw [length_pack, drop_pack]
    refine bind_ok.mpr ⟨_, header_eq (hm.signed h).fit, bind_ok.mpr ⟨_, if_neg hs, ?_⟩⟩
    rw [replaceAuthenticator_pack, ← append_assoc]
    rfl

theorem buildAccountingLikeRequestPacket_eq :
    buildAccountingLikeRequestPacket h code id attrs secret required =
      .ok (sealed h code id zeros (withMessageAuthenticator attrs required) secret required) := by
  refine bind_ok.mpr ⟨_, computeResponseAuthenticator_eq h hs hm.fit, ?_⟩
  refine bind_ok.mpr ⟨_, buildPacket_eq hm.fit _, ?_⟩
  generalize withMessageAuthenticator attrs required = attrs at hm
  cases required with
  | false => rfl
  | true =>
    have hsgn : Signable (signed h code id zeros attrs secret true) := hm.signed h
    refine bind_ok.mpr ⟨_, writeFrom_pack hm .., bind_ok.mpr ⟨_, if_neg hs, ?_⟩⟩
    rw [replaceAuthenticator_pack]
    refine bind_ok.mpr ⟨_, writeFrom_pack hm .., ?_⟩
    refine bind_ok.mpr ⟨_, parsePacket_pack hsgn.fit, ?_⟩
    refine bind_ok.mpr ⟨_, computeResponseAuthenticator_eq h hs hsgn.fit, ?_⟩
    rw [replaceAuthenticator_pack]
    rfl

theorem parsePacket_sealed :
    ∃ packet, parsePacket (sealed h code id auth (withMessageAuthenticator attrs required) secret
        required) = .ok packet ∧ packet.code = code ∧ packet.identifier = id ∧
      packet.attributes =
        signed h code id auth (withMessageAuthenticator attrs required) secret required ∧
      verifyResponse h packet auth secret = .ok true ∧
      (required = true →
        verifyAccessMessageAuthenticator h packet secret (some auth) = .ok true) := by
  have hsgn : Signable (signed h code id auth _ secret required) := hm.signed h
  refine ⟨_, parsePacket_pack hsgn.fit, rfl, rfl, rfl, ?_, ?_⟩
  · exact map_eq_ok.mpr ⟨_, computeResponseAuthenticator_eq h hs hsgn.fit, decide_eq_true rfl⟩
  · rintro rfl
    have hfind : (signed h code id auth (withMessageAuthenticator attrs true) secret true).find?
        (·.type = messageAuthenticator) = _ := find?_write _ any_withMessageAuthenticator
    rw [verifyAccessMessageAuthenticator, verifyMessageAuthenticator, hfind]
    dsimp only
    rw [if_neg (not_not.mpr (h.hmacMd5 ..).2)]
    refine map_eq_ok.mpr ⟨_, bind_ok.mpr ⟨_, writeFrom_pack hsgn ..,
      bind_ok.mpr ⟨_, if_neg hs, rfl⟩⟩, ?_⟩
    simp [replaceAuthenticator_pack, signed, write_write]

end

section NoSecret

variable {attrs : List Attribute} {required : Bool} {bytes : Buffer}

/-- Whatever is asked for, both builders reach the secret before they return. -/
theorem buildResponsePacket_no_secret :
    buildResponsePacket h code id auth attrs "" required ≠ .ok bytes := by
  intro hok
  obtain ⟨_, -, hok⟩ := bind_ok.mp hok
  obtain ⟨_, -, hok⟩ := bind_ok.mp hok
  obtain ⟨_, -, hok⟩ := bind_ok.mp hok
  obtain ⟨_, hsecret, -⟩ := bind_ok.mp hok
  cases hsecret

theorem buildAccountingLikeRequestPacket_no_secret :
    buildAccountingLikeRequestPacket h code id attrs "" required ≠ .ok bytes := by
  intro hok
  obtain ⟨_, hauth, -⟩ := bind_ok.mp hok
  obtain ⟨_, -, hauth⟩ := bind_ok.mp hauth
  obtain ⟨_, -, hauth⟩ := bind_ok.mp hauth
  obtain ⟨_, hsecret, -⟩ := bind_ok.mp hauth
  cases hsecret

end NoSecret

/-! ## Builders, parser and verification -/

/-- The length field is within the bounds and the datagram, and up to it there are attributes. -/
def WellFormed (buffer : Buffer) : Prop :=
  ∃ length, readUInt16BE buffer 2 = some length ∧ minPacketLength ≤ length ∧
    length ≤ maxPacketLength ∧ length ≤ buffer.length ∧
    ∃ attrs, Short attrs ∧ (buffer.take length).drop minPacketLength = encoded attrs

theorem parsePacket_isOk_iff (buffer : Buffer) :
    (∃ packet, parsePacket buffer = .ok packet) ↔ WellFormed buffer := by
  unfold parsePacket WellFormed readUInt16BE
  constructor
  · rintro ⟨_, h⟩
    obtain ⟨hmin, h⟩ := ite_error_eq_ok.mp h
    obtain ⟨_, h⟩ := ite_error_eq_ok.mp h
    obtain ⟨_, h⟩ := ite_error_eq_ok.mp h
    obtain ⟨attrs, h, -⟩ := map_eq_ok.mp h
    rw [minPacketLength] at hmin
    exact ⟨_, if_pos (by omega), by omega, by omega, by omega, attrs,
      (parseAttributes_eq_ok_iff _).mp h⟩
  · rintro ⟨_, hread, _, _, _, _, hattrs⟩
    split at hread <;> cases hread
    rw [if_neg (by omega)]
    dsimp only
    rw [if_neg (by omega), if_neg (by omega), (parseAttributes_eq_ok_iff _).mpr hattrs]
    exact ⟨_, rfl⟩

/-- What parses is well-formed, what is built parses and verifies, and without a secret nothing is
built. -/
theorem build_parse_verify (h : Hashes) :
    (∀ buffer, (∃ packet, parsePacket buffer = .ok packet) ↔ WellFormed buffer) ∧
    (∀ code id auth attrs, Fit attrs → ∃ bytes packet,
      buildPacket code id auth attrs = .ok bytes ∧ parsePacket bytes = .ok packet ∧
      packet.code = code ∧ packet.identifier = id ∧ packet.authenticator = auth.getD zeros ∧
      packet.attributes = attrs) ∧
    (∀ code id attrs secret required, secret ≠ "" →
      Signable (withMessageAuthenticator attrs required) →
      (∀ auth, ∃ bytes packet,
        buildResponsePacket h code id auth attrs secret required = .ok bytes ∧
        parsePacket bytes = .ok packet ∧ packet.code = code ∧ packet.identifier = id ∧
        packet.attributes =
          signed h code id auth (withMessageAuthenticator attrs required) secret required ∧
        verifyResponse h packet auth secret = .ok true ∧
        (required = true →
          verifyAccessMessageAuthenticator h packet secret (some auth) = .ok true)) ∧
      ∃ bytes packet,
        buildAccountingLikeRequestPacket h code id attrs secret required = .ok bytes ∧
        parsePacket bytes = .ok packet ∧ packet.code = code ∧ packet.identifier = id ∧
        packet.attributes =
          signed h code id zeros (withMessageAuthenticator attrs required) secret required ∧
        verifyAccountingLikeRequest h packet secret = .ok true ∧
        (required = true →
          verifyDynamicRequestMessageAuthenticator h packet secret = .ok true)) ∧
    ∀ code id attrs required bytes,
      (∀ auth, buildResponsePacket h code id auth attrs "" required ≠ .ok bytes) ∧
      buildAccountingLikeRequestPacket h code id attrs "" required ≠ .ok bytes := by
  refine ⟨parsePacket_isOk_iff, ?_, ?_, fun _ _ _ _ _ =>
    ⟨fun _ => buildResponsePacket_no_secret h, buildAccountingLikeRequestPacket_no_secret h⟩⟩
  · intro code id auth attrs hf
    exact ⟨_, _, buildPacket_eq hf _, parsePacket_pack hf, rfl, rfl, rfl, rfl⟩
  · intro code id attrs secret required hs hm
    constructor
    · intro auth
      obtain ⟨packet, hpkt⟩ := parsePacket_sealed h hs hm
      exact ⟨_, packet, buildResponsePacket_eq h hs hm, hpkt⟩
    · obtain ⟨packet, hpkt⟩ := parsePacket_sealed h hs hm
      exact ⟨_, packet, buildAccountingLikeRequestPacket_eq h hs hm, hpkt⟩

theorem length_firstBytes (bytes : Buffer) : ((bytes ++ replicate 16 0).take 16).length = 16 := by
  rw [length_take, length_append, length_replicate]
  omega

/-- Two digests that are the first bytes of what is hashed. -/
def sampleHashes : Hashes :=
  ⟨fun data => ⟨_, length_firstBytes data⟩, fun key data => ⟨_, length_firstBytes (key ++ data)⟩⟩

/-- A Reply-Message between two Message-Authenticators -/
def sampleAttributes : List Attribute :=
  [⟨messageAuthenticator, zeros.val⟩, ⟨18, utf8Encode "ok"⟩, ⟨messageAuthenticator, zeros.val⟩]

theorem build_parse_verify_signed : ∃ bytes packet,
    buildResponsePacket sampleHashes 2 7 zeros sampleAttributes "secret" true = .ok bytes ∧
      parsePacket bytes = .ok packet ∧ packet.code = 2 ∧ packet.identifier = 7 ∧
      packet.attributes = signed sampleHashes 2 7 zeros sampleAttributes "secret" true ∧
      verifyResponse sampleHashes packet zeros "secret" = .ok true ∧
      verifyAccessMessageAuthenticator sampleHashes packet "secret" (some zeros) = .ok true := by
  obtain ⟨-, -, hbuild, -⟩ := build_parse_verify sampleHashes
  have hfits : ∀ a ∈ sampleAttributes, a.type ≠ 0 ∧ a.value.length ≤ 253 ∧
      (a.type = messageAuthenticator → a.value.length = 16) := by decide
  have hsign : Signable sampleAttributes :=
    ⟨fun a ha => ⟨⟨(hfits a ha).1, (hfits a ha).2.1⟩, (hfits a ha).2.2⟩, by decide⟩
  obtain ⟨bytes, packet, hbuilt, hparse, hcode, hid, hattrs, hverify, haccess⟩ :=
    (hbuild 2 7 sampleAttributes "secret" true (by decide) hsign).1 zeros
  exact ⟨bytes, packet, hbuilt, hparse, hcode, hid, hattrs, hverify, haccess rfl⟩

/-! ## User-Passwords -/

theorem length_mask {block : Buffer} (h : block.length = 16) (digest : Digest) :
    (mask block digest).length = 16 := by
  simp [mask, h, digest.property]

theorem mask_mask {block : Buffer} (h : block.length = 16) (digest : Digest) :
    mask (mask block digest) digest = block := by
  refine ext_getElem (by rw [length_mask (length_mask h digest), h]) fun i _ _ => ?_
  simp only [mask, getElem_zipWith, UInt8.xor_assoc, UInt8.xor_self, UInt8.xor_zero]

section Blocks

variable (h : Hashes) (secret previous : Buffer) {count : ℕ} {padded : Buffer}

theorem length_encryptBlocks (hpad : padded.length = 16 * count) :
    (encryptBlocks h secret count previous padded).length = 16 * count := by
  induction count generalizing previous padded with
  | zero => rfl
  | succ _ ih =>
    rw [encryptBlocks, length_append, length_mask (by rw [length_take]; omega),
      ih _ (by rw [length_drop]; omega)]
    omega

/-- Both loops compute the digest of a block from the cipher before it. -/
theorem decryptBlocks_encryptBlocks (hpad : padded.length = 16 * count) :
    decryptBlocks h secret count previous (encryptBlocks h secret count previous padded) =
      padded := by
  induction count generalizing previous padded with
  | zero => exact (length_eq_zero_iff.mp hpad).symm
  | succ _ ih =>
    have hblock : (padded.take 16).length = 16 := by
      rw [length_take]
      omega
    have hcipher := length_mask hblock (h.md5 (secret ++ previous))
    rw [encryptBlocks, decryptBlocks, take_left' hcipher, drop_left' hcipher, mask_mask hblock,
      ih _ (by rw [length_drop]; omega), take_append_drop]

end Blocks

/-- What a password is padded with is stripped from the text again. -/
theorem rdropWhile_utf8Decode {password : String}
    (hlast : password.toList.getLast? ≠ some (.ofNat 0))
    (n : ℕ) : (utf8Decode (utf8Encode password ++ replicate n 0)).toList.rdropWhile
      (· = Char.ofNat 0) = password.toList := by
  have hzeros : (replicate n (Char.ofNat 0)).flatMap String.utf8EncodeChar = replicate n 0 := by
    induction n with
    | zero => rfl
    | succ n ih => rw [replicate_succ, flatMap_cons, ih]; rfl
  have hpad : utf8Encode password ++ replicate n 0 =
      utf8Encode (String.ofList (password.toList ++ replicate n (.ofNat 0))) := by
    rw [utf8Encode_ofList, flatMap_append, hzeros, ← utf8Encode_ofList, String.ofList_toList]
  rw [hpad, utf8Decode_utf8Encode, String.toList_ofList]
  clear hzeros hpad
  induction n with
  | zero =>
    rw [replicate_zero, append_nil, rdropWhile_eq_self_iff]
    intro hne hzero
    exact hlast (by rw [getLast?_eq_some_getLast hne, of_decide_eq_true hzero])
  | succ n ih => rw [replicate_succ', ← append_assoc, rdropWhile_concat_pos _ _ _ rfl, ih]

theorem decrypt_encryptUserPassword (h : Hashes) (secret : String) (auth : Digest)
    (password : String) (hsecret : secret ≠ "") (hlength : (utf8Encode password).length ≤ 128)
    (hlast : password.toList.getLast? ≠ some (.ofNat 0)) :
    ∃ cipher, encryptUserPassword h password secret auth = .ok cipher ∧
      decryptUserPassword h cipher secret auth = .ok password ∧
      IsLeast {n | 0 < n ∧ 16 ∣ n ∧ (utf8Encode password).length ≤ n} cipher.length := by
  obtain ⟨count, hcount⟩ : ∃ count, max 16 (((utf8Encode password).length + 15) / 16 * 16) =
      16 * count := ⟨max 1 (((utf8Encode password).length + 15) / 16), by omega⟩
  have hkey : normalizeSecret secret = .ok (utf8Encode secret) := if_neg hsecret
  have hblks : 16 * count / 16 = count := Nat.mul_div_cancel_left count (by decide)
  set padded := utf8Encode password ++ replicate (16 * count - (utf8Encode password).length) 0
    with hpad
  have hpadded : padded.length = 16 * count := by
    rw [length_append, length_replicate]
    omega
  have hcipher := length_encryptBlocks h (utf8Encode secret) auth.val hpadded
  refine ⟨encryptBlocks h (utf8Encode secret) count auth.val padded, ?_, ?_, ?_⟩
  · rw [encryptUserPassword, if_neg (by omega), hkey, hcount]
    show Except.ok _ = _
    rw [hpadded, hblks]
  · rw [decryptUserPassword, if_neg (by omega), hkey, hcipher, hblks]
    show Except.ok _ = _
    rw [decryptBlocks_encryptBlocks _ _ _ hpadded, rdropWhile_utf8Decode hlast,
      String.ofList_toList]
  · rw [hcipher]
    refine ⟨⟨by omega, ⟨count, rfl⟩, by omega⟩, ?_⟩
    rintro n ⟨_, ⟨k, rfl⟩, _⟩
    omega

theorem decrypt_encryptUserPassword_two_blocks :
    let auth := sampleHashes.md5 (utf8Encode "authenticator")
    ∃ cipher, encryptUserPassword sampleHashes "correct horse battery" "secret" auth = .ok cipher ∧
      decryptUserPassword sampleHashes cipher "secret" auth = .ok "correct horse battery" ∧
      IsLeast {n | 0 < n ∧ 16 ∣ n ∧ (utf8Encode "correct horse battery").length ≤ n}
        cipher.length :=
  decrypt_encryptUserPassword sampleHashes "secret" _ "correct horse battery" (by decide)
    (by decide) (by decide)

theorem encryptUserPassword_no_secret : encryptUserPassword sampleHashes "pass" "" zeros =
    .error "RADIUS shared secret cannot be empty" := by
  decide

end Radius
