import NetNexus.Bgp.Proofs.VpnEvpnProofs
import NetNexus.Node.Proofs.NumberProofs

/-!
# NLRIs of queue pairs and of labeled routes

What the builders of a peer write is read back, except for a prefix without a label that is long
enough to be taken for one.
-/

namespace Bgp

open Ip List Node Peer

variable {value : Buffer}

/-! ## Queue pairs -/

theorem doubleOfBytes_eq (h : value.length ≤ 4) : doubleOfBytes value = ofBytes value := by
  have hdouble {n : ℕ} (hn : n < 2 ^ 53) : double n = n := by
    have hlog : n.log2 < 53 := by
      rcases Nat.eq_zero_or_pos n with rfl | hpos
      · decide
      · exact (Nat.log2_lt hpos.ne').mpr hn
    simp [double, Nat.sub_eq_zero_of_le (Nat.le_of_lt_succ hlog), Nat.mod_one]
  induction value using reverseRecOn with
  | nil => rfl
  | append_singleton value b ih =>
    have hlt := ofBytes_lt (value ++ [b])
    have hpow : 256 ^ (value ++ [b]).length ≤ 256 ^ 4 := Nat.pow_le_pow_right (by decide) h
    rw [ofBytes_append_singleton] at hlt
    rw [length_append] at h
    rw [doubleOfBytes, foldl_append, ← doubleOfBytes, ih (by omega), ofBytes_append_singleton]
    exact hdouble (by omega)

theorem parseQpDqpn_encode {dqpn : ℤ} (h : 0 ≤ dqpn ∧ dqpn ≤ 0xffffff) :
    ∃ bits value, encodeQpDqpn dqpn = .ok (bits, value) ∧ prefixSize bits.toNat = value.length ∧
      value.length ≤ 3 ∧ parseQpDqpn bits.toNat value = dqpn.toNat := by
  have hvalue k (hk : k ≤ 4) (h : dqpn.toNat < 2 ^ (8 * k)) :
      doubleOfBytes (uintBE k dqpn.toNat) = dqpn.toNat := by
    rw [doubleOfBytes_eq ((length_uintBE ..).trans_le hk), ofBytes_uintBE h]
  unfold encodeQpDqpn
  rw [if_neg (by omega)]
  split_ifs
  · exact ⟨8, _, rfl, rfl, by simp, hvalue 1 (by decide) (by omega)⟩
  · exact ⟨16, _, rfl, (length_uintBE ..).symm, by simp, hvalue 2 (by decide) (by omega)⟩
  · exact ⟨24, _, rfl, (length_uintBE ..).symm, by simp, hvalue 3 (by decide) (by omega)⟩

theorem dqpnTlv_spec {route : Route} {mask : UInt8} (hdqpn : ¬ route.hasNoDqpn →
      0 ≤ route.dqpn.getD 0 ∧ route.dqpn.getD 0 ≤ 0xffffff)
    (h : prefixSize mask.toNat = value.length) :
    ∃ tlv dqpn, dqpnTlv route = .ok tlv ∧ routeDqpn route = .ok dqpn ∧ tlv.length ≤ 5 ∧
      parseQpTlvs (tlv ++ 2 :: mask :: value).length {} (tlv ++ 2 :: mask :: value) =
        .ok ⟨dqpn, some (mask.toNat, value)⟩ := by
  unfold dqpnTlv routeDqpn
  split_ifs with hno
  · refine ⟨[], none, rfl, rfl, by simp, ?_⟩
    simp [parseQpTlvs, h]
  · obtain ⟨bits, number, henc, hnum, _, hparse⟩ := parseQpDqpn_encode (hdqpn hno)
    rw [henc]
    refine ⟨1 :: bits :: number, some _, rfl, rfl, by simp; omega, ?_⟩
    simp [parseQpTlvs, h, hnum, hparse, ← Nat.add_assoc]
    omega

/-! ## Labels -/

theorem labels_spec {route : Route} (h : if route.hasNoLabel then route.mask < 24
      else 0 ≤ route.label.getD 16 ∧ route.label.getD 16 ≤ 0xfffff) :
    ∃ bytes labels, (if route.hasNoLabel then .ok [] else encodeMplsLabel (route.label.getD 16)) =
        Except.ok bytes ∧ bytes.length = 3 * labels.length ∧ labels.length ≤ 1 ∧
      (if route.hasNoLabel then [] else [bottomLabel (route.label.getD 16).toNat]) = labels ∧
      ∀ value : Buffer, parseMplsLabelStack (bytes.length * 8 + route.mask) (bytes ++ value) =
        (labels, value) := by
  split_ifs at h ⊢
  · refine ⟨[], [], rfl, rfl, Nat.zero_le 1, rfl, fun value => ?_⟩
    rw [length_nil, nil_append, parseMplsLabelStack.eq_def]
    split
    · exact if_neg (by omega)
    · rfl
  · refine ⟨_, _, ?_, length_uintBE .., le_rfl, rfl,
      fun value => parseMplsLabelStack_bottom (by simp) (by omega) value⟩
    rw [encodeMplsLabel, normalizeMplsLabel, if_pos h]
    rfl

/-- What is read back of the NLRIs that are written. -/
structure NlriReads (ipaddr : Ipaddr) : Prop where
  qp : ∀ route bytes afi, afi = 1 ∨ afi = 2 → ipaddr.ipToBytes route.ip = .ok bytes →
    bytes.length = addressSize afi → route.mask ≤ maxPrefixLength afi →
    (¬ route.hasNoDqpn → 0 ≤ route.dqpn.getD 0 ∧ route.dqpn.getD 0 ≤ 0xffffff) →
    ∃ nlri dqpn, buildQpNlri ipaddr route = .ok nlri ∧ routeDqpn route = .ok dqpn ∧
      ReadsWhole afi 241 false false nlri 0
        (.qp dqpn route.mask (clearHostBits route.mask bytes))
  dqpn : ∀ n, n < 8 ∨ n % 8 = 0 ∧ n ≤ 32 → ∀ v w : Buffer, v.length = prefixSize n →
    w.length = prefixSize n → parseQpDqpn n v = parseQpDqpn n w →
    ofBytes v % 2 ^ n = ofBytes w % 2 ^ n
  labeled : ∀ (route : Route) bytes includePathId, ipaddr.ipToBytes route.ip = .ok bytes →
    bytes.length = 4 → route.mask ≤ 32 →
    (if route.hasNoLabel then route.mask < 24
      else 0 ≤ route.label.getD 16 ∧ route.label.getD 16 ≤ 0xfffff) →
    ∃ nlri first tail, buildLabeledUnicastNlri ipaddr route includePathId = .ok nlri ∧
      takePathId includePathId nlri =
        some (if includePathId then normalizePathId route.pathId else 0, first :: tail) ∧
      (parseLabeledUnicastNlri 1 first tail).nlri =
        .labeled (if route.hasNoLabel then [] else [bottomLabel (route.label.getD 16).toNat])
          route.mask (clearHostBits route.mask bytes)

theorem nlri_reads (ipaddr : Ipaddr) : NlriReads ipaddr where
  qp := by
    intro route bytes afi hafi hip hsize hmask hdqpn
    have hle := mask_lt hmask
    have hbyte := toNat_ofNat_of_lt (n := route.mask) (by omega)
    have hvalue := length_take_prefixSize hsize hmask
    obtain ⟨tlv, dqpn, htlv, hroute, _, hparse⟩ :=
      dqpnTlv_spec hdqpn ((congrArg _ hbyte).trans hvalue.symm)
    generalize hnlri : tlv ++ 2 :: UInt8.ofNat route.mask :: bytes.take _ =
      nlri at hparse
    have hlen : nlri.length < 256 := by
      rw [← hnlri, length_append, length_cons, length_cons, hvalue, prefixSize]
      omega
    refine ⟨UInt8.ofNat nlri.length :: nlri, dqpn, ?_, hroute, _, _, rfl, ?_⟩
    · rw [buildQpNlri, htlv, hip]
      show (if 255 < _ then _ else _) = _
      rw [hnlri, if_neg (by omega)]
      rfl
    · have hentry : parseNlriEntry afi 241 false (UInt8.ofNat nlri.length) nlri =
          parseQpNlri afi (UInt8.ofNat nlri.length) nlri := by
        rcases hafi with rfl | rfl <;> rfl
      have haddr : bytes.length = if afi = 1 then 4 else 16 := by
        rcases hafi with rfl | rfl <;> exact hsize
      rw [hentry, parseQpNlri, toNat_ofNat_of_lt hlen, if_neg (lt_irrefl _), take_length, hparse]
      dsimp only
      rw [hbyte, addressBytes_take haddr]
      exact ⟨rfl, rfl, Nat.add_comm ..⟩
  dqpn := by
    intro n hn v w hv hw heq
    have hsize : prefixSize n ≤ 4 := by
      unfold prefixSize
      omega
    rw [parseQpDqpn, parseQpDqpn, doubleOfBytes_eq (hv ▸ hsize),
      doubleOfBytes_eq (hw ▸ hsize)] at heq
    split_ifs at heq with hzero
    · rw [heq]
    · rwa [Nat.mod_eq_of_lt (by omega : n < 8)] at heq
  labeled := by
    intro route bytes includePathId hip hsize hmask hlabel
    have hpid : normalizePathId route.pathId ≤ 0xffffffff := by
      unfold normalizePathId
      split
      · split_ifs <;> omega
      · omega
    obtain ⟨label, labels, henc, hlen, _, hlabels, hstack⟩ := labels_spec hlabel
    have haddr : addressBytes (addressSize 1) (bytes.take (prefixSize route.mask)) route.mask =
      clearHostBits route.mask bytes := addressBytes_take hsize
    have hbits : label.length * 8 + route.mask = 24 * labels.length + route.mask := by omega
    refine ⟨_, UInt8.ofNat (label.length * 8 + route.mask),
      label ++ bytes.take (prefixSize route.mask), ?_, takePathId_optionalPathId hpid _, ?_⟩
    · rw [buildLabeledUnicastNlri, hip]
      split at henc
      all_goals
        rename_i hno
        simp only [hno, henc]
        exact (if_neg (not_lt.mpr hmask)).trans (congrArg _ (append_assoc ..))
    · rw [parseLabeledUnicastNlri, toNat_ofNat_of_lt (by omega)]
      dsimp only
      rw [take_of_length_le (by simp [prefixSize]; omega), hstack, hlabels, hbits, ← hlen]
      simp [take_take, haddr]

def nlriSample : Route :=
  { ip := "10.1.3.9", mask := 23, dqpn := some 0x12345, label := some 100, pathId := some 7 }

theorem nlri_reads_sample :
    (∃ nlri dqpn, buildQpNlri plain nlriSample = .ok nlri ∧ routeDqpn nlriSample = .ok dqpn ∧
      ReadsWhole 1 241 false false nlri 0 (.qp dqpn 23 [10, 1, 2, 0])) ∧
    (∀ v : Buffer, v.length = 2 → parseQpDqpn 16 v = parseQpDqpn 16 [1, 2] →
      ofBytes v % 2 ^ 16 = 0x102) ∧
    ∃ nlri first tail, buildLabeledUnicastNlri plain nlriSample true = .ok nlri ∧
      takePathId true nlri = some (7, first :: tail) ∧
      (parseLabeledUnicastNlri 1 first tail).nlri = .labeled [bottomLabel 100] 23 [10, 1, 2, 0] :=
  ⟨(nlri_reads plain).qp nlriSample _ 1 (.inl rfl) rfl rfl (by decide) (by decide),
    fun v hv heq => (nlri_reads plain).dqpn 16 (.inr (by decide)) v [1, 2] hv rfl heq,
    (nlri_reads plain).labeled nlriSample _ true rfl rfl (by decide) (by decide)⟩

def unlabeledSample : Route := { ip := "10.0.0.0", mask := 24, labelAbsent := true }

/-- Two queue pairs of 12 bits are read as one, and 10.0.0.0/24 without a label is read as a
label. -/
theorem nlri_misread : parseQpDqpn 12 [0, 1] = parseQpDqpn 12 [1, 1] ∧
    buildLabeledUnicastNlri plain unlabeledSample false = .ok [24, 10, 0, 0] ∧
    (parseLabeledUnicastNlri 1 24 [10, 0, 0]).nlri =
      .labeled [⟨0xa000, 0, false⟩] 0 [0, 0, 0, 0] := by
  decide +kernel

end Bgp
