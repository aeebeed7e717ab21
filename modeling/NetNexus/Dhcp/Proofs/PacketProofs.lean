import NetNexus.Dhcp.Packet
import NetNexus.Node.Proofs.TextProofs

/-!
# Addresses in DHCPv4 packets

The text of an address stands for one number, and a response carries the address it was built for.
-/

namespace Dhcp

open List Node

variable (num : UInt32)

theorem splitOn_numToIp : (numToIp num).toList.splitOn '.' =
    (uint32be num.toNat).map fun b => Nat.toDigits 10 b.toNat := by
  unfold numToIp
  rw [String.toList_ofList]
  refine splitOn_intercalate '.' (fun digits hdigs hdot => ?_) (by simp [uint32be])
  obtain ⟨b, -, rfl⟩ := mem_map.mp hdigs
  exact absurd (Nat.isDigit_of_mem_toDigits (by omega) (by omega) hdot) (by decide)

@[simp] theorem ipToBuffer_numToIp : ipToBuffer (numToIp num) = uint32be num.toNat := by
  unfold ipToBuffer
  rw [splitOn_numToIp, map_map]
  refine (map_congr_left fun b _ => ?_).trans (map_id _)
  simp [decimal?_toDigits]

theorem shift_or_octet {acc : UInt32} (hacc : acc.toNat < 2 ^ 24) (b : UInt8) :
    ((acc <<< 8) ||| UInt32.ofInt (b.toNat : ℤ)).toNat = acc.toNat * 2 ^ 8 + b.toNat := by
  have hb := b.toNat_lt
  have hof : (UInt32.ofInt b.toNat).toNat = b.toNat := by
    simp [UInt32.ofInt]
    omega
  have hshift : (acc <<< 8).toNat = acc.toNat <<< 8 := by
    show acc.toNat <<< 8 % 2 ^ 32 = _
    omega
  rw [UInt32.toNat_or, hof, hshift, ← Nat.shiftLeft_add_eq_or_of_lt hb, Nat.shiftLeft_eq]

@[simp] theorem ipToNum_numToIp : ipToNum (numToIp num) = num := by
  have hnum := num.toNat_lt
  unfold ipToNum
  rw [splitOn_numToIp]
  simp only [uint32be, map_cons, map_nil, foldl_cons, foldl_nil,
    parseInt_toDigits, Option.getD_some]
  generalize h0 : UInt8.ofNat _ = b0
  generalize h1 : UInt8.ofNat _ = b1
  generalize h2 : UInt8.ofNat _ = b2
  generalize h3 : UInt8.ofNat num.toNat = b3
  have hb0 : b0.toNat = num.toNat / 2 ^ 24 % 2 ^ 8 := by rw [← h0]; rfl
  have hb1 : b1.toNat = num.toNat / 2 ^ 16 % 2 ^ 8 := by rw [← h1]; rfl
  have hb2 : b2.toNat = num.toNat / 2 ^ 8 % 2 ^ 8 := by rw [← h2]; rfl
  have hb3 : b3.toNat = num.toNat % 2 ^ 8 := by rw [← h3]; rfl
  have hzero : (0 : UInt32).toNat < 2 ^ 24 := by decide
  have e0 := shift_or_octet hzero b0
  have e1 := shift_or_octet (by rw [e0]; show 0 * 2 ^ 8 + _ < _; omega) b1
  have e2 := shift_or_octet (by rw [e1, e0]; show (0 * 2 ^ 8 + _) * 2 ^ 8 + _ < _; omega) b2
  have e3 := shift_or_octet
    (by rw [e2, e1, e0]; show ((0 * 2 ^ 8 + _) * 2 ^ 8 + _) * 2 ^ 8 + _ < _; omega) b3
  refine UInt32.toNat_inj.mp ?_
  rw [e3, e2, e1, e0]
  show (((0 * 2 ^ 8 + _) * 2 ^ 8 + _) * 2 ^ 8 + _) * 2 ^ 8 + _ = _
  omega

/-! ## What a packet asks for -/

theorem optionIp_eq_some {value : Option Buffer} {ip : String} (h : optionIp value = some ip) :
    ∃ num, ip = numToIp num := by
  obtain ⟨_, -, hread⟩ := Option.bind_eq_some_iff.mp h
  obtain ⟨-, -, rfl⟩ := Option.map_eq_some_iff.mp hread
  exact ⟨_, rfl⟩

theorem parseDhcpPacket_ok {buffer : Buffer} {packet : Packet}
    (h : parseDhcpPacket buffer = some packet) :
    packet.giaddr.length = 4 ∧ packet.chaddr.length = 16 ∧
      ∀ ip, packet.requestedIp = some ip → ∃ num, ip = numToIp num := by
  unfold parseDhcpPacket at h
  split at h
  · cases h
  · cases h
    refine ⟨?_, ?_, fun ip hip => optionIp_eq_some hip⟩
    · simp only [length_take, length_drop]
      omega
    · simp only [length_take, length_drop]
      omega

/-! ## The address in a response -/

/-- `yiaddr` of an encoded response. -/
def yiaddr (bytes : Buffer) : Buffer := (bytes.drop 16).take 4

theorem yiaddr_buildDhcpResponse (config : Config) (packet : Packet) (msgType : MsgType)
    (num : UInt32) :
    yiaddr (buildDhcpResponse config packet msgType (numToIp num)) = uint32be num.toNat := by
  unfold yiaddr buildDhcpResponse
  simp only [ipToBuffer_numToIp, uint32be, uint16be, cons_append, nil_append, drop_succ_cons,
    drop_zero, take_succ_cons, take_zero]

end Dhcp
