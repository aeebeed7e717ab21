import NetNexus.Bgp.Proofs.EntryProofs

/-!
# EVPN routes are read back
-/

namespace Bgp

open EvpnReader Ip Node
open List hiding Vector

variable {length : ℕ} {bytes : Buffer} {field : Buffer} {fields : EvpnFields}

namespace EvpnReader

variable {α γ : Type} {rest : Buffer} {behindEnd : Bool} {errors : List String}

theorem run_bind {x : EvpnReader α} {f : α → EvpnReader γ} {c c' : EvpnCursor} {a : α}
    (h : x.run c = (a, c')) : (x >>= f).run c = (f a).run c' := by
  show (f (x.run c).1).run (x.run c).2 = _
  rw [h]

theorem run_readField (h : field.length = length) (name : String) :
    (readField length name).run ⟨field ++ rest, behindEnd, errors⟩ =
      (some field, ⟨rest, behindEnd, errors⟩) := by
  have hlong : ¬ (field ++ rest).length < length := by
    rw [length_append]
    omega
  show (if _ < length then _ else _) = _
  rw [if_neg hlong, take_left' h, drop_left' h]

theorem run_readBytes (h : field.length = length) (name : String) :
    (readBytes length name).run ⟨field ++ rest, false, errors⟩ =
      (field, ⟨rest, false, errors⟩) := by
  have hlong : ¬ ((field ++ rest).length < length ∨ false = true) := by
    simp
    omega
  show (if _ < length ∨ false = true then _ else _) = _
  rw [if_neg hlong, take_left' h, drop_left' h]

theorem run_readUint32 {n : ℕ} (h : n < 2 ^ 32) (name : String) :
    (readUint32 name).run ⟨uint32be n ++ rest, behindEnd, errors⟩ =
      (some n, ⟨rest, behindEnd, errors⟩) := by
  rw [readUint32, run_bind (run_readField (length_uint32be n) name), Option.map_some,
    ofBytes_uint32be h]
  rfl

theorem run_readLabel (label : LabelField) (name : String) :
    (readLabel name).run ⟨uintBE 3 label.1 ++ rest, behindEnd, errors⟩ =
      (some label.1, ⟨rest, behindEnd, errors⟩) := by
  have hlabel : label.1 < 2 ^ (8 * 3) := by
    omega
  rw [readLabel, run_bind (run_readField (length_uintBE 3 _) name), Option.map_some,
    ofBytes_uintBE hlabel]
  rfl

theorem run_noteIf {condition : Prop} [Decidable condition] (h : ¬ condition) (message : String)
    (c : EvpnCursor) : (noteIf condition message).run c = ((), c) := by
  rw [noteIf, if_neg h]
  rfl

theorem run_readLength (b : UInt8) :
    readLength.run ⟨b :: rest, behindEnd, errors⟩ = (b.toNat, ⟨rest, behindEnd, errors⟩) := rfl

theorem addressBytes_of_length {size : ℕ} (h : bytes.length = size) :
    addressBytes size bytes (8 * size) = bytes := by
  rw [addressBytes, if_neg (by omega), take_left' h]

theorem run_addressBytes (h : field.length = length) (name : String) :
    (do return some (addressBytes length (← readBytes length name) (8 * length)) :
        EvpnReader _).run ⟨field ++ rest, false, errors⟩ =
      (some field, ⟨rest, false, errors⟩) := by
  rw [run_bind (run_readBytes h name), addressBytes_of_length h]
  rfl

theorem run_readIp (address : Address) (name : String) :
    (readIp (UInt8.ofNat (address.toByteArray.length * 8)).toNat name).run
        ⟨address.toByteArray ++ rest, false, errors⟩ =
      (some address.toByteArray, ⟨rest, false, errors⟩) := by
  cases address with
  | ipv4 bytes | _ bytes =>
    have hlen := bytes.length_toList
    rw [Address.toByteArray, hlen]
    exact run_addressBytes hlen name

theorem run_readEsi (esi : Vector UInt8 10) :
    (readBytes 10 "ESI").run ⟨esi.toList ++ rest, false, errors⟩ =
      (esi.toList, ⟨rest, false, errors⟩) :=
  run_readBytes (Vector.length_toList ..) _

theorem run_readTag (tag : Within 0 0xffffffff) (name : String) :
    (readUint32 name).run ⟨uint32be tag.1 ++ rest, behindEnd, errors⟩ =
      (some tag.1, ⟨rest, behindEnd, errors⟩) :=
  run_readUint32 (by have := tag.2.2; omega) name

end EvpnReader

section Routes

variable {rd : Buffer} (hrd : rd.length = 8) (esi : Vector UInt8 10) (tag : Within 0 0xffffffff)
  (origin : Address) (label : LabelField)

namespace EvpnFields

/-- The parser of a route type reads the fields back. -/
def ReadBy (fields : EvpnFields) (read : Option ℕ → EvpnReader EvpnNlri) (rd : Buffer) : Prop :=
  (read (some (rd ++ fields.bytes).length)).run { rest := rd ++ fields.bytes } =
    (fields.nlri rd, { rest := [] })

theorem readBy {read : Option ℕ → EvpnReader EvpnNlri} (hbytes : rd ++ fields.bytes = bytes)
    (hlen : bytes.length = length)
    (h : (read (some length)).run { rest := bytes } = (fields.nlri rd, { rest := [] })) :
    fields.ReadBy read rd := by
  rw [ReadBy, hbytes, hlen, h]

end EvpnFields

open EvpnFields

include hrd

theorem run_autoDiscovery :
    (autoDiscovery esi tag label).ReadBy parseEvpnEthernetAutoDiscoveryRoute rd := by
  have hbytes : rd ++ (autoDiscovery esi tag label).bytes =
      rd ++ (esi.toList ++ (uint32be tag.1 ++ (uintBE 3 label.1 ++ []))) := by
    simp [EvpnFields.bytes]
  refine readBy hbytes (show _ = 25 by simp [hrd]) ?_
  rw [parseEvpnEthernetAutoDiscoveryRoute, run_bind (run_noteIf (by simp) _ _), readRd,
    run_bind (run_readField hrd _), run_bind (run_readEsi esi), run_bind (run_readTag tag _),
    run_bind (run_readLabel label _)]
  rfl

omit hrd

variable (address : Address)

theorem length_sizedAddress : (sizedAddress address).length = 1 + address.toByteArray.length := by
  rw [sizedAddress, length_cons, Nat.add_comm]

theorem length_toByteArray : address.toByteArray.length = 4 ∨ address.toByteArray.length = 16 := by
  cases address with
  | ipv4 _ => exact .inl (by simp [Address.toByteArray])
  | ipv6 _ => exact .inr (by simp [Address.toByteArray])

theorem toNat_addressBits :
    (UInt8.ofNat (address.toByteArray.length * 8)).toNat = address.toByteArray.length * 8 :=
  toNat_ofNat_of_lt (by rcases length_toByteArray address with h | h <;> omega)

theorem run_noteOriginLength (route : String) {address : Address} {ipv4 ipv6 length : ℕ}
    (hlen : length = ipv4 + (address.toByteArray.length - 4)) (hipv6 : ipv6 = ipv4 + 12)
    (c : EvpnCursor) :
    (noteOriginLength route (some length) (UInt8.ofNat (address.toByteArray.length * 8)).toNat
      ipv4 ipv6).run c = ((), c) := by
  rw [toNat_addressBits, noteOriginLength, run_bind (run_noteIf ?_ ..), run_noteIf]
  all_goals
    rintro ⟨h, hne⟩
    exact hne (by rw [hlen]; exact congrArg some (by omega))

theorem length_origin (hrd : rd.length = 8) (hfield : field.length = length) (origin : Address) :
    (rd ++ (field ++ UInt8.ofNat (origin.toByteArray.length * 8) ::
      (origin.toByteArray ++ []))).length = 13 + length + (origin.toByteArray.length - 4) := by
  simp only [length_append, length_cons, length_nil]
  rcases length_toByteArray origin with h | h <;> omega

include hrd

theorem run_inclusiveMulticast :
    (inclusiveMulticast tag origin).ReadBy parseEvpnInclusiveMulticastRoute rd := by
  have hbytes : rd ++ (inclusiveMulticast tag origin).bytes =
      rd ++ (uint32be tag.1 ++ UInt8.ofNat (origin.toByteArray.length * 8) ::
        (origin.toByteArray ++ [])) := by
    rw [append_nil]
    rfl
  refine readBy hbytes (length_origin hrd (length_uint32be _) origin) ?_
  rw [parseEvpnInclusiveMulticastRoute, readRd, run_bind (run_readField hrd _),
    run_bind (run_readTag tag _), run_bind (run_readLength _),
    run_bind (run_noteOriginLength _ rfl rfl _), run_bind (run_readIp origin _), toNat_addressBits]
  rfl

theorem run_ethernetSegment :
    (ethernetSegment esi origin).ReadBy parseEvpnEthernetSegmentRoute rd := by
  have hbytes : rd ++ (ethernetSegment esi origin).bytes =
      rd ++ (esi.toList ++ UInt8.ofNat (origin.toByteArray.length * 8) ::
        (origin.toByteArray ++ [])) := by
    rw [append_nil]
    rfl
  refine readBy hbytes (length_origin hrd (Vector.length_toList ..) origin) ?_
  rw [parseEvpnEthernetSegmentRoute, readRd, run_bind (run_readField hrd _),
    run_bind (run_readEsi esi), run_bind (run_readLength _),
    run_bind (run_noteOriginLength _ rfl rfl _), run_bind (run_readIp origin _), toNat_addressBits]
  rfl

omit hrd

/-! ### MAC/IP advertisements -/

/-- The bytes of an address that may be absent. -/
def ipOctets (ip : Option Address) : Buffer := (ip.map Address.toByteArray).getD []

variable (ip : Option Address)

theorem sizedIp_eq :
    (ip.map sizedAddress).getD [0] = UInt8.ofNat ((ipOctets ip).length * 8) :: ipOctets ip := by
  cases ip <;> rfl

theorem length_ipOctets :
    (ipOctets ip).length = 0 ∨ (ipOctets ip).length = 4 ∨ (ipOctets ip).length = 16 := by
  cases ip with
  | none => exact .inl rfl
  | some address => exact .inr (length_toByteArray address)

theorem toNat_ipBits :
    (UInt8.ofNat ((ipOctets ip).length * 8)).toNat = (ipOctets ip).length * 8 :=
  toNat_ofNat_of_lt (by rcases length_ipOctets ip with h | h | h <;> omega)

theorem ipBytes_ipOctets :
    ipBytes (UInt8.ofNat ((ipOctets ip).length * 8)).toNat = some (ipOctets ip).length := by
  rcases length_ipOctets ip with h | h | h <;> rw [h] <;> rfl

variable {errors : List String}

theorem run_readOptionalIp {rest : Buffer} (name : String) :
    (readIp (UInt8.ofNat ((ipOctets ip).length * 8)).toNat name).run
        ⟨ipOctets ip ++ rest, false, errors⟩ =
      (ip.map Address.toByteArray, ⟨rest, false, errors⟩) := by
  cases ip with
  | none => rfl
  | some address => exact run_readIp address name

/-- The bytes of a label that may be absent. -/
def labelOctets (label : Option LabelField) : Buffer :=
  (label.map fun label => uintBE 3 label.1).getD []

theorem length_labelOctets (label : Option LabelField) :
    (labelOctets label).length = 0 ∨ (labelOctets label).length = 3 := by
  cases label with
  | none => exact .inl rfl
  | some _ => exact .inr (length_uintBE 3 _)

theorem run_secondLabel (label : Option LabelField) (name : String) :
    StateT.run (fun c : EvpnCursor =>
        if 3 ≤ c.rest.length then (readLabel name).run c else (none, c) : EvpnReader (Option ℕ))
        ⟨labelOctets label, false, errors⟩ =
      (label.map Subtype.val, ⟨[], false, errors⟩) := by
  cases label with
  | none => rfl
  | some label =>
    show (if 3 ≤ (uintBE 3 label.1).length then
      (readLabel name).run ⟨uintBE 3 label.1, false, errors⟩
      else (none, ⟨uintBE 3 label.1, false, errors⟩)) = _
    rw [← append_nil (uintBE 3 label.1), run_readLabel]
    rfl

theorem run_macIp (hrd : rd.length = 8) (mac : Vector UInt8 6) (ip : Option Address)
    (label2 : Option LabelField) :
    (macIp esi tag mac ip label label2).ReadBy parseEvpnMacIpAdvertisementRoute rd := by
  have hmac : mac.toList.length = prefixSize (48 : UInt8).toNat := by
    rw [Vector.length_toList]
    rfl
  have hbytes : rd ++ (macIp esi tag mac ip label label2).bytes =
      rd ++ (esi.toList ++ (uint32be tag.1 ++ 48 :: (mac.toList ++
        UInt8.ofNat ((ipOctets ip).length * 8) :: (ipOctets ip ++ (uintBE 3 label.1 ++
          labelOctets label2))))) := by
    rw [EvpnFields.bytes, sizedIp_eq]
    simp [labelOctets]
  have hcons : ¬ ∃ size ∈ ipBytes (UInt8.ofNat ((ipOctets ip).length * 8)).toNat,
      some (33 + (ipOctets ip).length + (labelOctets label2).length) ≠ some (33 + size) ∧
      some (33 + (ipOctets ip).length + (labelOctets label2).length) ≠ some (36 + size) := by
    rw [ipBytes_ipOctets]
    rintro ⟨_, hsize, hne₁, hne₂⟩
    cases hsize
    rcases length_labelOctets label2 with h | h
    · exact hne₁ (congrArg some (by omega))
    · exact hne₂ (congrArg some (by omega))
  refine readBy hbytes (show _ = 33 + (ipOctets ip).length + (labelOctets label2).length by
    simp [hrd]; omega) ?_
  rw [parseEvpnMacIpAdvertisementRoute, readRd, run_bind (run_readField hrd _),
    run_bind (run_readEsi esi), run_bind (run_readTag tag _), run_bind (run_readLength _),
    run_bind (run_noteIf (by decide) _ _), run_bind (run_readBytes hmac _),
    run_bind (run_readLength _), run_bind (run_noteIf hcons ..),
    run_bind (run_readOptionalIp ip _), run_bind (run_readLabel label _),
    run_bind (run_secondLabel label2 _), toNat_ipBits]
  cases label2 <;> rfl

/-! ### IP prefixes -/

theorem addressBytes_network {size mask : ℕ} (hsize : bytes.length = size)
    (h : clearHostBits mask bytes = bytes) : addressBytes size bytes mask = bytes := by
  refine ext_getElem? fun i => ?_
  rw [getElem?_addressBytes, take_left' hsize]
  by_cases hlast : 0 < mask % 8 ∧ mask / 8 = i
  · have hi : (clearHostBits mask bytes)[i]? = bytes[i]? := by rw [h]
    rw [getElem?_clearHostBits, show mask - 8 * i = mask % 8 by omega] at hi
    rw [if_pos hlast, hi]
  · rw [if_neg hlast, Option.map_id, id]

theorem run_readIpPrefix {rest : Buffer} {isIpv6 : Bool} {mask : ℕ}
    (hsize : bytes.length = if isIpv6 then 16 else 4) (hmask : mask ≤ 8 * bytes.length)
    (h : clearHostBits mask bytes = bytes) (name : String) :
    (readIpPrefix mask isIpv6 name).run ⟨bytes ++ rest, false, errors⟩ =
      (bytes, ⟨rest, false, errors⟩) := by
  rw [readIpPrefix, run_bind (run_noteIf (by omega) _ _), run_bind (run_readBytes hsize name),
    addressBytes_network hsize h]
  rfl

theorem run_prefixFields (hrd : rd.length = 8) {mask : ℕ} {ip : Buffer} {gateway : Address}
    {isIpv6 : Bool}
    (hip : ip.length = if isIpv6 then 16 else 4) (hgate : gateway.toByteArray.length = ip.length)
    (hmask : mask ≤ 8 * ip.length) (hnet : clearHostBits mask ip = ip) :
    (parseEvpnIpPrefixRoute (some (26 + 2 * ip.length))).run
        { rest := rd ++ (esi.toList ++ (uint32be tag.1 ++ UInt8.ofNat mask :: (ip ++
          (gateway.toByteArray ++ (uintBE 3 label.1 ++ []))))) } =
      ({ routeType := 5, rd := some rd, esi := some esi.toList, ethernetTagId := some tag.1
         prefixLength := some mask, ipPrefix := some ip, gatewayIp := some gateway.toByteArray
         labels := [label.1] }, { rest := [] }) := by
  have hbyte : (UInt8.ofNat mask).toNat = mask :=
    toNat_ofNat_of_lt (by split at hip <;> omega)
  have hkind : ((some (26 + 2 * ip.length)).any (58 ≤ ·) || decide (32 < mask)) = isIpv6 := by
    cases isIpv6 with
    | false =>
      simpa [hip] using hmask
    | true =>
      simp [hip]
  have hlen : ¬ (some (26 + 2 * ip.length) ≠ some 34 ∧ some (26 + 2 * ip.length) ≠ some 58) := by
    rw [hip]
    cases isIpv6 <;> simp
  have hbits : (if isIpv6 = true then 128 else 32) =
      (UInt8.ofNat (gateway.toByteArray.length * 8)).toNat := by
    rw [hgate, hip]
    cases isIpv6 <;> rfl
  rw [parseEvpnIpPrefixRoute, readRd, run_bind (run_readField hrd _),
    run_bind (run_readEsi esi), run_bind (run_readTag tag _), run_bind (run_readLength _), hbyte,
    hkind]
  dsimp only
  rw [hbits, run_bind (run_noteIf hlen ..), run_bind (run_readIpPrefix hip hmask hnet _),
    run_bind (run_readIp gateway _), run_bind (run_readLabel label _)]
  rfl

/-- A prefix without host bits and a gateway of its kind. -/
structure IsPrefix (mask : ℕ) (ip gateway : Address) : Prop where
  mask_le : mask ≤ ip.kind.bits
  gateway_kind : gateway.kind = ip.kind
  network : networkAddress mask ip = ip

theorem toByteArray_networkAddress (mask : ℕ) (address : Address) :
    (networkAddress mask address).toByteArray = clearHostBits mask address.toByteArray := by
  cases address <;> exact Vector.toList_mapIdx

theorem bits_kind (address : Address) : address.kind.bits = 8 * address.toByteArray.length := by
  cases address <;> simp [Address.kind, Kind.bits, Address.toByteArray]

theorem run_ipPrefix (hrd : rd.length = 8) {mask : ℕ} {ip gateway : Address}
    (h : IsPrefix mask ip gateway) :
    (ipPrefix esi tag mask ip gateway label).ReadBy parseEvpnIpPrefixRoute rd := by
  have hmask : mask ≤ 8 * ip.toByteArray.length := bits_kind ip ▸ h.mask_le
  have hgate : gateway.toByteArray.length = ip.toByteArray.length := by
    have hbits := bits_kind gateway
    rw [h.gateway_kind, bits_kind] at hbits
    omega
  have hnet : clearHostBits mask ip.toByteArray = ip.toByteArray := by
    rw [← toByteArray_networkAddress, h.network]
  have hip : ip.toByteArray.length = if ip.kind = .ipv6 then 16 else 4 := by
    cases ip <;> simp [Address.kind, Address.toByteArray]
  refine readBy ?_ ?_ (@run_prefixFields rd esi tag label hrd mask ip.toByteArray gateway
    (ip.kind = .ipv6) (by simpa using hip) hgate hmask hnet)
  · simp [EvpnFields.bytes]
  · simp [hrd, hgate]
    omega

end Routes

/-! ## Any route -/

/-- The fields of an IP prefix route fit together. -/
def EvpnFields.Normal : EvpnFields → Prop
  | .ipPrefix _ _ mask ip gateway _ => IsPrefix mask ip gateway
  | _ => True

theorem evpnParser_run (hrd : rd.length = 8) (h : fields.Normal) :
    ∃ read, evpnParser fields.routeType.toNat = some read ∧ fields.ReadBy read rd := by
  cases fields with
  | autoDiscovery esi tag label => exact ⟨_, rfl, run_autoDiscovery hrd esi tag label⟩
  | macIp esi tag mac ip label label2 =>
    exact ⟨_, rfl, run_macIp esi tag label hrd mac ip label2⟩
  | inclusiveMulticast tag origin => exact ⟨_, rfl, run_inclusiveMulticast hrd tag origin⟩
  | ethernetSegment esi origin => exact ⟨_, rfl, run_ethernetSegment hrd esi origin⟩
  | ipPrefix esi tag _ _ _ label => exact ⟨_, rfl, run_ipPrefix esi tag label hrd h⟩

theorem length_evpnFields_le (fields : EvpnFields) : fields.bytes.length ≤ 50 := by
  have haddr := length_toByteArray
  cases fields with
  | autoDiscovery _ _ _ => simp [EvpnFields.bytes]
  | macIp _ _ _ ip _ label2 =>
    have hip := length_ipOctets ip
    have hlabel := length_labelOctets label2
    rw [EvpnFields.bytes, sizedIp_eq]
    change (_ ++ labelOctets label2).length ≤ 50
    simp only [length_append, length_cons, Vector.length_toList, length_uint32be, length_uintBE]
    omega
  | inclusiveMulticast _ origin =>
    have horig := haddr origin
    rw [EvpnFields.bytes, length_append, length_uint32be, length_sizedAddress]
    omega
  | ethernetSegment _ origin =>
    have horig := haddr origin
    rw [EvpnFields.bytes, length_append, Vector.length_toList, length_sizedAddress]
    omega
  | ipPrefix _ _ _ ip gateway _ =>
    have hip := haddr ip
    have hgate := haddr gateway
    simp only [EvpnFields.bytes, length_append, length_cons, Vector.length_toList, length_uint32be,
      length_uintBE]
    omega

theorem parseEvpnNlri_append (hrd : rd.length = 8) (h : fields.Normal) {value : Buffer}
    (hvalue : value = rd ++ fields.bytes) (rest : Buffer) :
    parseEvpnNlri fields.routeType (UInt8.ofNat value.length :: value ++ rest) =
      { nlri := .evpn (fields.nlri rd), consumed := 2 + value.length, raw := some value } := by
  obtain ⟨_, hparser, hread⟩ := evpnParser_run hrd h
  rw [EvpnFields.ReadBy, ← hvalue] at hread
  have hlong := length_evpnFields_le fields
  have hbyte : (UInt8.ofNat value.length).toNat = value.length :=
    toNat_ofNat_of_lt (by rw [hvalue, length_append]; omega)
  rw [parseEvpnNlri, cons_append, head?_cons, Option.map_some, hbyte, tail_cons,
    Option.getD_some, take_left, hparser]
  dsimp only
  rw [hread]
  rfl

end Bgp
