import NetNexus.Ip.Proofs.IpUtilsProofs
import NetNexus.Node.Proofs.BytesProofs
import NetNexus.Node.Proofs.TextProofs
import NetNexus.Rpki.Normalize

/-!
# Normalised ROAs are canonical

A ROA that passes `normalizeRoaObject` has its prefix in the text form of a network address and
lengths that its family allows. It is normalised in the application and again in the store, which
changes nothing.
-/

namespace Rpki

open Ip

theorem beforeLastSlash_append {text rest : String} (hrest : '/' ∉ rest.toList) :
    beforeLastSlash (text ++ "/" ++ rest) = text := by
  have hlist : (text ++ "/" ++ rest).toList = text.toList ++ '/' :: rest.toList := by simp
  have hdrop : (rest.toList.reverse ++ '/' :: text.toList.reverse).dropWhile (· ≠ '/') =
      '/' :: text.toList.reverse := by
    rw [List.dropWhile_append_of_pos (by grind)]
    rfl
  unfold beforeLastSlash
  rw [hlist, if_pos (by simp), List.reverse_append, List.reverse_cons, List.append_assoc,
    List.singleton_append, hdrop, List.tail_cons, List.reverse_reverse, String.ofList_toList]

theorem slash_not_mem_toString (n : ℕ) : '/' ∉ (toString n).toList :=
  fun hmem => absurd (Node.isDigit_of_mem_toString hmem) (by decide)

/-! ## Network addresses -/

/-- The bytes of a number, as the masked one is printed. -/
def octets (n : UInt32) : Vector UInt8 4 :=
  #v[(n >>> 24).toUInt8, (n >>> 16).toUInt8, (n >>> 8).toUInt8, n.toUInt8]

theorem ofNat_ofBytes_octets (n : UInt32) : UInt32.ofNat (Node.ofBytes (octets n).toList) = n := by
  refine UInt32.toNat_inj.mp ?_
  have hn := n.toNat_lt
  simp [octets, Node.ofBytes, Nat.shiftRight_eq_div_pow]
  omega

theorem maskIpv4_maskIpv4 (bytes : Vector UInt8 4) (prefixLen : ℕ) :
    Ipaddr.maskIpv4 (Ipaddr.maskIpv4 bytes prefixLen) prefixLen =
      Ipaddr.maskIpv4 bytes prefixLen := by
  have hmask : ∀ bytes, Ipaddr.maskIpv4 bytes prefixLen = octets (UInt32.ofNat
      (Node.ofBytes bytes.toList) &&& ~~~ UInt32.ofNat (2 ^ (32 - prefixLen) - 1)) := fun _ => rfl
  rw [hmask, hmask, ofNat_ofBytes_octets, UInt32.and_assoc, UInt32.and_self]

/-- The first bits of a byte, and zeros behind. -/
def maskBits (count n : ℕ) : ℕ :=
  (List.range 8).foldl (fun acc j => acc * 2 + if j < count then n / 2 ^ (7 - j) % 2 else 0) 0

theorem maskBits_maskBits : ∀ count < 9, ∀ n < 2 ^ 8,
    maskBits count (maskBits count n % 2 ^ 8) = maskBits count n := by
  decide +kernel

theorem getElem_maskIpv6 (bytes : Vector UInt8 16) (prefixLen : ℕ) {i : ℕ} (hi : i < 16) :
    (Ipaddr.maskIpv6 bytes prefixLen)[i] =
      UInt8.ofNat (maskBits (min (prefixLen - 8 * i) 8) bytes[i].toNat) := by
  simp only [Ipaddr.maskIpv6, Vector.getElem_mapIdx]
  refine congrArg UInt8.ofNat (List.foldl_ext _ _ _ fun acc j hj => ?_)
  have hiff : 8 * i + j < prefixLen ↔ j < min (prefixLen - 8 * i) 8 := by
    rw [List.mem_range] at hj
    omega
  simp only [hiff]

theorem maskIpv6_maskIpv6 (bytes : Vector UInt8 16) (prefixLen : ℕ) :
    Ipaddr.maskIpv6 (Ipaddr.maskIpv6 bytes prefixLen) prefixLen =
      Ipaddr.maskIpv6 bytes prefixLen := by
  refine Vector.ext fun i hi => ?_
  simp only [getElem_maskIpv6 _ _ hi, UInt8.toNat_ofNat']
  exact congrArg UInt8.ofNat (maskBits_maskBits _ (by omega) _ bytes[i].toNat_lt)

/-- The address of the network that an address is in. -/
def networkOf (prefixLen : ℕ) : Address → Address
  | .ipv4 bytes => .ipv4 (Ipaddr.maskIpv4 bytes prefixLen)
  | .ipv6 bytes => .ipv6 (Ipaddr.maskIpv6 bytes prefixLen)

theorem ipTypeOf_networkOf (prefixLen : ℕ) (address : Address) :
    ipTypeOf (networkOf prefixLen address) = ipTypeOf address := by
  cases address <;> rfl

theorem networkOf_networkOf (prefixLen : ℕ) (address : Address) :
    networkOf prefixLen (networkOf prefixLen address) = networkOf prefixLen address := by
  cases address with
  | ipv4 bytes => exact congrArg Address.ipv4 (maskIpv4_maskIpv4 bytes prefixLen)
  | ipv6 bytes => exact congrArg Address.ipv6 (maskIpv6_maskIpv6 bytes prefixLen)

/-! ## ROAs -/

/-- The fields that are picked from a normalised ROA. -/
def Roa.fields (roa : Roa) : RoaFields :=
  ⟨some roa.asn, roa.ip, some roa.mask, some (some roa.maxLength)⟩

variable {ipaddr : Ipaddr} {fields : RoaFields} {roa : Roa}

theorem getNetworkAddress_eq_some {ip : String} {address : Address}
    (hparse : ipaddr.parse ip = some address) (prefixLen : ℕ) :
    ipaddr.getNetworkAddress ip prefixLen =
      some (ipaddr.text (networkOf prefixLen address) ++ "/" ++ toString prefixLen) := by
  unfold Ipaddr.getNetworkAddress
  rw [hparse]
  cases address <;> rfl

theorem normalizeRoaObject_eq_some (h : normalizeRoaObject ipaddr fields = some roa) :
    (∃ address, ipTypeOf address = roa.ipType ∧
      roa.ip = ipaddr.text (networkOf roa.mask address)) ∧
      roa.mask ≤ roa.maxLength ∧ roa.maxLength ≤ roa.ipType.maxMask := by
  simp only [normalizeRoaObject, Option.bind_eq_bind, Option.bind_eq_some_iff] at h
  obtain ⟨_, -, h⟩ := h
  by_cases hip : fields.ip = ""
  · rw [if_pos hip] at h
    cases h
  rw [if_neg hip] at h
  simp only [Option.bind_eq_some_iff] at h
  obtain ⟨mask, -, parsedIp, hparse, maxLength, -, h⟩ := h
  split at h
  · cases h
  · rw [getNetworkAddress_eq_some hparse, Option.bind_some,
      beforeLastSlash_append (slash_not_mem_toString _)] at h
    cases h
    refine ⟨⟨parsedIp, rfl, rfl⟩, ?_, ?_⟩
    · show mask.toNat ≤ maxLength.toNat
      omega
    · show maxLength.toNat ≤ (ipTypeOf parsedIp).maxMask
      omega

/-- A normalised ROA is in the form that the store keeps, and is normalised to itself. -/
theorem normalizeRoaObject_fixed (hdoc : ipaddr.Documented) (hempty : ipaddr.parse "" = none)
    (h : normalizeRoaObject ipaddr fields = some roa) :
    roa.Canonical ipaddr ∧ normalizeRoaObject ipaddr roa.fields = some roa := by
  obtain ⟨⟨address, htype, htext⟩, hle, hmax⟩ := normalizeRoaObject_eq_some h
  have hnet : ipTypeOf (networkOf roa.mask address) = roa.ipType := by
    rw [ipTypeOf_networkOf, htype]
  refine ⟨⟨⟨_, hnet, htext⟩, hle, hmax⟩, ?_⟩
  have hparse : ipaddr.parse roa.ip = some (networkOf roa.mask address) := htext ▸ hdoc _
  have hip : roa.ip ≠ "" := by
    intro hip
    rw [hip, hempty] at hparse
    cases hparse
  simp only [normalizeRoaObject, Roa.fields, Option.bind_eq_bind, Option.bind_some, if_neg hip,
    hparse, Option.getD_some, hnet]
  rw [if_neg (by omega), Int.toNat_natCast, getNetworkAddress_eq_some hparse, Option.bind_some,
    beforeLastSlash_append (slash_not_mem_toString _), networkOf_networkOf, ← htext]
  rfl

/-- The host bits of `10.1.2.3/8` are cleared. -/
theorem normalizeRoaObject_fixed_sample :
    normalizeRoaObject plain ⟨some 7, "10.1.2.3", some 8, none⟩ =
        some ⟨.ipv4, "10.0.0.0", 8, 7, 8⟩ ∧
      normalizeRoaObject plain (Roa.fields ⟨.ipv4, "10.0.0.0", 8, 7, 8⟩) =
        some ⟨.ipv4, "10.0.0.0", 8, 7, 8⟩ := by
  have h : normalizeRoaObject plain ⟨some 7, "10.1.2.3", some 8, none⟩ =
      some ⟨.ipv4, "10.0.0.0", 8, 7, 8⟩ := by
    decide +kernel
  exact ⟨h, (normalizeRoaObject_fixed plain_documented (by decide +kernel) h).2⟩

end Rpki
