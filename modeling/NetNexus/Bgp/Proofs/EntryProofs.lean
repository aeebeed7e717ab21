import NetNexus.Bgp.Announcement
import NetNexus.Bgp.Proofs.PrefixProofs
import NetNexus.Node.Proofs.TextProofs

/-!
# Every NLRI is read back

For each family, the parser takes exactly the bytes of an NLRI off the buffer and finds the fields
that were written.
-/

namespace Bgp

open List Node Ip Wire

/-! ## IP prefixes -/

section Prefixes

variable {afi mask : ℕ} {bytes : Buffer}

theorem length_take_prefixSize (hsize : bytes.length = addressSize afi)
    (hmask : mask ≤ maxPrefixLength afi) :
    (bytes.take (prefixSize mask)).length = prefixSize mask := by
  have hle : prefixSize mask ≤ bytes.length := by
    rw [hsize]
    unfold prefixSize addressSize
    unfold maxPrefixLength at hmask
    split at hmask <;> simp_all <;> omega
  rw [length_take, Nat.min_eq_left hle]

theorem mask_lt (hmask : mask ≤ maxPrefixLength afi) : mask ≤ 128 := by
  unfold maxPrefixLength at hmask
  split at hmask <;> omega

theorem toNat_ofNat_of_lt {n : ℕ} (h : n < 256) : (UInt8.ofNat n).toNat = n :=
  UInt8.toNat_ofNat_of_lt' h

/-! ## Labels -/

theorem parseMplsLabelStack_bottom {bits label : ℕ} (hbits : 24 ≤ bits) (hlabel : label ≤ 0xfffff)
    (behind : Buffer) : parseMplsLabelStack bits (uintBE 3 (label * 16 + 1) ++ behind) =
      ([bottomLabel label], behind) := by
  have hentry : ofBytes (uintBE 3 (label * 16 + 1)) = label * 16 + 1 :=
    ofBytes_uintBE (by omega)
  have hdec : ⟨(label * 16 + 1) / 16, (label * 16 + 1) / 2 % 8,
      decide ((label * 16 + 1) % 2 = 1)⟩ = bottomLabel label := by
    rw [bottomLabel, MplsLabel.mk.injEq]
    exact ⟨by omega, by omega, decide_eq_true (by omega)⟩
  have hbottom : decide ((label * 16 + 1) % 2 = 1) = true := decide_eq_true (by omega)
  show (if 24 ≤ bits then _ else _) = _
  rw [if_pos hbits]
  rw [show [_, _, _] = uintBE 3 _ from rfl, hentry, if_pos hbottom, hdec]
  rfl

@[simp] theorem errorIf_of_not {condition : Prop} [Decidable condition] {message : String}
    (h : ¬ condition) : errorIf condition message = [] := if_neg h

theorem prefixSize_add (n mask : ℕ) : prefixSize (8 * n + mask) = n + prefixSize mask := by
  unfold prefixSize
  omega

/-! ## VPN -/

variable {rd : Buffer} (hrd : rd.length = 8) (hsize : bytes.length = addressSize afi)
  (hmask : mask ≤ maxPrefixLength afi)
include hrd hsize hmask

theorem parseRdAndPrefix_append (family : String) :
    parseRdAndPrefix family afi mask (rd ++ bytes.take (prefixSize mask)) =
      (some rd, clearHostBits mask bytes, [], 0) := by
  have htake := length_take_prefixSize hsize hmask
  have hlong : ¬ (rd ++ bytes.take (prefixSize mask)).length < 8 := by
    rw [length_append]
    omega
  rw [parseRdAndPrefix, if_pos (by omega), errorIf_of_not hlong, take_left' hrd, drop_left' hrd,
    take_of_length_le (by omega), addressBytes_take hsize, prefixLengthErrors,
      errorIf_of_not (by omega),
    errorIf_of_not (by omega), drop_of_length_le (by omega)]
  rfl

theorem vpnValue {label : Buffer} (hlabel : label.length = 3) :
    (UInt8.ofNat (24 + 64 + mask)).toNat = 24 + 64 + mask ∧
      prefixSize (24 + 64 + mask) = 3 + (8 + prefixSize mask) ∧
      (label ++ (rd ++ bytes.take (prefixSize mask))).length = 3 + (8 + prefixSize mask) := by
  refine ⟨toNat_ofNat_of_lt (by have := mask_lt hmask; omega), ?_, ?_⟩
  · rw [prefixSize_add 11]
    omega
  · rw [length_append, length_append, hlabel, hrd, length_take_prefixSize hsize hmask]

theorem parseRouteDistinguisherNlri_append {label : ℕ} (hlabel : label ≤ 0xfffff) (rest : Buffer) :
    parseRouteDistinguisherNlri afi (UInt8.ofNat (24 + 64 + mask))
        (uintBE 3 (label * 16 + 1) ++ (rd ++ bytes.take (prefixSize mask)) ++ rest) =
      { nlri := .vpn (some rd) [bottomLabel label] mask (clearHostBits mask bytes)
        consumed := 1 + (3 + (8 + prefixSize mask))
        raw := some (uintBE 3 (label * 16 + 1) ++ (rd ++ bytes.take (prefixSize mask))) } := by
  obtain ⟨hbyte, hbits, htail⟩ := vpnValue hrd hsize hmask (length_uintBE 3 _)
  have hmaskEq : 24 + 64 + mask - 24 * [bottomLabel label].length - 64 = mask := by
    rw [length_singleton]
    omega
  rw [parseRouteDistinguisherNlri, hbyte]
  dsimp only
  rw [hbits, take_left' htail, parseMplsLabelStack_bottom (by omega) hlabel]
  rw [hmaskEq, parseRdAndPrefix_append hrd hsize hmask,
    errorIf_of_not, errorIf_of_not, htail]
  · rfl
  · omega
  · rw [length_append]
    omega

theorem parseRouteDistinguisherWithdrawalNlri_append {label : Buffer} (hlabel : label.length = 3)
    (rest : Buffer) : parseRouteDistinguisherWithdrawalNlri afi (UInt8.ofNat (24 + 64 + mask))
        (label ++ (rd ++ bytes.take (prefixSize mask)) ++ rest) =
      { nlri := .vpnWithdrawal (some rd) label mask (clearHostBits mask bytes)
        consumed := 1 + (3 + (8 + prefixSize mask))
        raw := some (label ++ (rd ++ bytes.take (prefixSize mask))) } := by
  obtain ⟨hbyte, hbits, htail⟩ := vpnValue hrd hsize hmask hlabel
  have hmaskEq : 24 + 64 + mask - 24 - 64 = mask := by omega
  rw [parseRouteDistinguisherWithdrawalNlri, hbyte]
  rw [hbits, take_left' htail, drop_left' hlabel, hmaskEq,
    parseRdAndPrefix_append hrd hsize hmask, take_left' hlabel,
    errorIf_of_not, errorIf_of_not, errorIf_of_not, htail]
  · rfl
  · omega
  · omega
  · rw [length_append]
    omega

end Prefixes

end Bgp
