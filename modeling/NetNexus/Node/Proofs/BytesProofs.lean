import NetNexus.Node.Bytes

/-!
# Numbers in buffers: lengths, ranges and round trips
-/

namespace Node

@[simp] theorem length_uint16be (n : ℕ) : (uint16be n).length = 2 := rfl

@[simp] theorem length_uint32be (n : ℕ) : (uint32be n).length = 4 := rfl

theorem ofBytes_singleton {n : ℕ} (h : n < 2 ^ 8) : ofBytes [UInt8.ofNat n] = n := by
  simp only [ofBytes, List.foldl_cons, List.foldl_nil, UInt8.toNat_ofNat']
  omega

theorem ofBytes_uint16be {n : ℕ} (h : n < 2 ^ 16) : ofBytes (uint16be n) = n := by
  simp only [ofBytes, uint16be, List.foldl_cons, List.foldl_nil, UInt8.toNat_ofNat']
  omega

theorem ofBytes_uint32be {n : ℕ} (h : n < 2 ^ 32) : ofBytes (uint32be n) = n := by
  simp only [ofBytes, uint32be, List.foldl_cons, List.foldl_nil, UInt8.toNat_ofNat']
  omega

theorem uint32be_inj {a b : UInt32} (h : uint32be a.toNat = uint32be b.toNat) : a = b := by
  have hbytes := congrArg ofBytes h
  rw [ofBytes_uint32be a.toNat_lt, ofBytes_uint32be b.toNat_lt] at hbytes
  exact UInt32.toNat_inj.mp hbytes

theorem writeUInt32BE_isOk_iff (value : Option ℤ) :
    (∃ bytes, writeUInt32BE value = .ok bytes) ↔ ∀ n, value = some n → 0 ≤ n ∧ n ≤ 0xFFFFFFFF := by
  cases value with
  | none => simp [writeUInt32BE]
  | some n =>
    unfold writeUInt32BE
    dsimp only
    split
    · rename_i h
      simp [h]
    · rename_i h
      simpa using h

theorem length_writeUInt32BE {value : Option ℤ} {bytes : Buffer}
    (h : writeUInt32BE value = .ok bytes) : bytes.length = 4 := by
  cases value with
  | none =>
    cases h
    rfl
  | some n =>
    unfold writeUInt32BE at h
    dsimp only at h
    split at h <;> cases h
    rfl

theorem length_of_readUInt32BE {buf : Buffer} {offset n : ℕ}
    (h : readUInt32BE buf offset = some n) : offset + 4 ≤ buf.length := by
  unfold readUInt32BE at h
  by_contra hlen
  rw [if_neg hlen] at h
  cases h

theorem readUInt16BE_ne_none {buf : Buffer} {offset : ℕ} (h : offset + 2 ≤ buf.length) :
    readUInt16BE buf offset ≠ none := by
  unfold readUInt16BE
  rw [if_pos h]
  exact Option.some_ne_none _

end Node
