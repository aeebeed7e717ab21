import NetNexus.Bgp.Entry

/-!
# Prefixes on the wire

A prefix is written as the bytes that its length touches. What is read from them is the address
without its host bits.
-/

namespace Bgp

open Ip Node
open List hiding Vector

theorem keepBits_of_le {bits : ℕ} (h : 8 ≤ bits) (b : UInt8) : keepBits bits b = b := by
  have hb : b.toNat < 2 ^ 8 := b.toNat_lt
  rw [keepBits, Nat.sub_eq_zero_of_le h, Nat.shiftLeft_zero]
  have hand : b.toNat &&& 0xff = b.toNat := by
    rw [show 0xff = 2 ^ 8 - 1 from rfl, Nat.and_two_pow_sub_one_eq_mod, Nat.mod_eq_of_lt hb]
  rw [hand]
  exact UInt8.ofNat_toNat

theorem keepBits_zero (b : UInt8) : keepBits 0 b = 0 := by
  have hb : b.toNat < 2 ^ 8 := b.toNat_lt
  have hand : b.toNat &&& (0xff <<< 8) = 0 := by
    apply Nat.eq_of_testBit_eq
    intro i
    rw [Nat.testBit_and, Nat.testBit_shiftLeft, Nat.zero_testBit]
    by_cases hi : 8 ≤ i
    · have hpow : b.toNat < 2 ^ i := hb.trans_le (Nat.pow_le_pow_right (by decide) hi)
      rw [Nat.testBit_lt_two_pow hpow, Bool.false_and]
    · simp [hi]
  rw [keepBits, hand]
  rfl

theorem keepBits_keepBits (bits : ℕ) (b : UInt8) :
    keepBits bits (keepBits bits b) = keepBits bits b := by
  have hle : b.toNat &&& (0xff <<< (8 - bits)) < 2 ^ 8 := Nat.and_le_left.trans_lt b.toNat_lt
  rw [keepBits, keepBits, UInt8.toNat_ofNat', Nat.mod_eq_of_lt hle, Nat.and_assoc, Nat.and_self]

variable (mask : ℕ) (bytes : Buffer)

theorem getElem?_clearHostBits (i : ℕ) :
    (clearHostBits mask bytes)[i]? = bytes[i]?.map (keepBits (mask - 8 * i)) :=
  getElem?_mapIdx

theorem getElem?_padded {size mask i : ℕ} {bytes : Buffer} (hsize : bytes.length = size)
    (h : i < size) : (((bytes.take (prefixSize mask)) ++ List.replicate size 0).take size)[i]? =
      if i < prefixSize mask then bytes[i]? else some 0 := by
  rw [getElem?_take_of_lt h]
  by_cases hi : i < prefixSize mask
  · rw [if_pos hi, getElem?_append_left (by rw [length_take]; omega), getElem?_take_of_lt hi]
  · rw [if_neg hi, getElem?_append_right (by rw [length_take]; omega),
      getElem?_replicate, if_pos (by rw [length_take]; omega)]

theorem getElem?_addressBytes (size : ℕ) (buffer : Buffer) (mask i : ℕ) :
    (addressBytes size buffer mask)[i]? =
      ((buffer ++ List.replicate size 0).take size)[i]?.map
        (if 0 < mask % 8 ∧ mask / 8 = i then keepBits (mask % 8) else id) := by
  unfold addressBytes
  by_cases hrem : 0 < mask % 8
  · rw [if_pos hrem]
    by_cases hi : mask / 8 = i
    · simp [hrem, hi]
    · simp [hi]
  · simp [hrem]

theorem addressBytes_take {size mask : ℕ} {bytes : Buffer} (hsize : bytes.length = size) :
    addressBytes size (bytes.take (prefixSize mask)) mask = clearHostBits mask bytes := by
  refine ext_getElem? fun i => ?_
  rw [getElem?_clearHostBits, getElem?_addressBytes]
  by_cases hi : i < size
  · rw [getElem?_padded hsize hi]
    obtain ⟨b, hb⟩ : ∃ b, bytes[i]? = some b := ⟨_, getElem?_eq_getElem (hsize ▸ hi)⟩
    have hsizeLt : i < prefixSize mask ↔ 8 * i < mask := by
      unfold prefixSize
      omega
    rw [hb]
    -- before the byte in which the prefix ends, in it and behind it
    rcases Nat.lt_trichotomy i (mask / 8) with _ | heq | _
    · have hin : i < prefixSize mask := hsizeLt.mpr (by omega)
      have hlast : ¬ (0 < mask % 8 ∧ mask / 8 = i) := by omega
      rw [if_neg hlast, if_pos hin, Option.map_id, Option.map_some, keepBits_of_le (by omega)]
      rfl
    · by_cases hrem : 0 < mask % 8
      · have hin : i < prefixSize mask := hsizeLt.mpr (by omega)
        rw [if_pos ⟨hrem, heq.symm⟩, if_pos hin, show mask - 8 * i = mask % 8 by omega]
      · have hin : ¬ i < prefixSize mask := fun h => by have := hsizeLt.mp h; omega
        rw [if_neg (fun h => hrem h.1), if_neg hin, Option.map_id, Option.map_some,
          show mask - 8 * i = 0 by omega, keepBits_zero]
        rfl
    · have hin : ¬ i < prefixSize mask := fun h => by have := hsizeLt.mp h; omega
      have hlast : ¬ (0 < mask % 8 ∧ mask / 8 = i) := by omega
      rw [if_neg hlast, if_neg hin, Option.map_id, Option.map_some,
        show mask - 8 * i = 0 by omega, keepBits_zero]
      rfl
  · rw [getElem?_eq_none (by rw [length_take]; omega), getElem?_eq_none (by omega)]
    rfl

end Bgp
