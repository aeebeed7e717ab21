import NetNexus.Node.Proofs.TextProofs
import Mathlib.Tactic.Ring

/-!
# Buffers as numbers in base 256
-/

namespace Node

theorem ofBytes_cons (b : UInt8) (bytes : Buffer) :
    ofBytes (b :: bytes) = b.toNat * 256 ^ bytes.length + ofBytes bytes := by
  induction bytes using List.reverseRecOn with
  | nil => simp [ofBytes]
  | append_singleton _ _ ih =>
    rw [← List.cons_append, ofBytes_append_singleton, ih, ofBytes_append_singleton,
      List.length_append, List.length_singleton]
    ring

theorem ofBytes_lt (bytes : Buffer) : ofBytes bytes < 256 ^ bytes.length := by
  induction bytes with
  | nil => exact Nat.one_pos
  | cons b bytes ih =>
    have hb : b.toNat + 1 ≤ 256 := b.toNat_lt
    rw [ofBytes_cons]
    calc b.toNat * 256 ^ bytes.length + ofBytes bytes
        < b.toNat * 256 ^ bytes.length + 256 ^ bytes.length := Nat.add_lt_add_left ih _
      _ = (b.toNat + 1) * 256 ^ bytes.length := by ring
      _ ≤ 256 * 256 ^ bytes.length := Nat.mul_le_mul_right _ hb
      _ = 256 ^ bytes.length * 256 := Nat.mul_comm ..

theorem ofBytes_cons_lt {a b : UInt8} {as bs : Buffer} (hlen : as.length = bs.length)
    (h : a < b) : ofBytes (a :: as) < ofBytes (b :: bs) := by
  have hab : a.toNat + 1 ≤ b.toNat := UInt8.lt_iff_toNat_lt.mp h
  rw [ofBytes_cons, ofBytes_cons, hlen]
  calc a.toNat * 256 ^ bs.length + ofBytes as
      < a.toNat * 256 ^ bs.length + 256 ^ bs.length :=
        Nat.add_lt_add_left (hlen ▸ ofBytes_lt as) _
    _ = (a.toNat + 1) * 256 ^ bs.length := by ring
    _ ≤ b.toNat * 256 ^ bs.length := Nat.mul_le_mul_right _ hab
    _ ≤ b.toNat * 256 ^ bs.length + ofBytes bs := Nat.le_add_right ..

theorem ofBytes_inj {a b : Buffer} (hlen : a.length = b.length) (h : ofBytes a = ofBytes b) :
    a = b := by
  induction a generalizing b with
  | nil => exact (List.length_eq_zero_iff.mp hlen.symm).symm
  | cons a as ih =>
    cases b with
    | nil => cases hlen
    | cons b bs =>
      have htail : as.length = bs.length := Nat.succ_inj.mp hlen
      have heq : a = b := by
        refine UInt8.le_antisymm (UInt8.not_lt.mp fun hlt => ?_) (UInt8.not_lt.mp fun hlt => ?_)
        · exact absurd h (ofBytes_cons_lt htail.symm hlt).ne'
        · exact absurd h (ofBytes_cons_lt htail hlt).ne
      rw [ofBytes_cons, ofBytes_cons, heq, htail] at h
      rw [heq, ih htail (Nat.add_left_cancel h)]

theorem readUInt16BE_lt {buf : Buffer} {offset n : ℕ} (h : readUInt16BE buf offset = some n) :
    n < 2 ^ 16 := by
  unfold readUInt16BE at h
  split at h
  · cases h
    have hlt := ofBytes_lt ((buf.drop offset).take 2)
    have htwo : ((buf.drop offset).take 2).length = 2 := by
      rw [List.length_take, List.length_drop]
      omega
    rw [htwo] at hlt
    exact hlt
  · cases h

end Node
