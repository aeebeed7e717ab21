import NetNexus.Bgp.Proofs.AttributeProofs
import NetNexus.Node.Proofs.BytesProofs
import NetNexus.Wire.Proofs.PackingProofs

/-!
# UPDATE messages are sent in parts and read by section

Whatever the family, the routes of a list are sent in messages for consecutive parts of it. A
reader accepts the header of each message and finds the sections it was put together from.
-/

namespace Bgp

open Control Ip List Node Wire

/-! ## Sections -/

variable {bytes rest withdrawn attributes nlri message : Buffer}

theorem sized_eq_ok (h : sized bytes = .ok rest) :
    bytes.length < 2 ^ 16 ∧ rest = uint16be bytes.length ++ bytes := by
  obtain ⟨length, hlen, h⟩ := bind_ok.mp h
  cases h
  obtain ⟨hle, hlen⟩ := ite_eq_ok_error.mp hlen
  cases hlen
  exact ⟨Nat.lt_succ_of_le hle, rfl⟩

theorem takeSection_sized {reserve : ℕ} {error : String} (h : bytes.length < 2 ^ 16)
    (hrest : reserve ≤ rest.length) :
    takeSection (uint16be bytes.length ++ bytes ++ rest) reserve error = .ok (bytes, rest) := by
  have hread : readUInt16BE (uint16be bytes.length ++ bytes ++ rest) 0 = some bytes.length :=
    (if_pos (by simp [uint16be])).trans (congrArg some (ofBytes_uint16be h))
  have hdrop : (uint16be bytes.length ++ bytes ++ rest).drop 2 = bytes ++ rest := rfl
  rw [takeSection, hread]
  dsimp only
  rw [if_neg (by simp [uint16be]; omega), hdrop, take_left, drop_left]

/-- A message is its header and its sections behind their lengths. -/
theorem updateMessage_eq_ok (h : updateMessage withdrawn attributes nlri = .ok message) :
    withdrawn.length < 2 ^ 16 ∧ attributes.length < 2 ^ 16 ∧
      parsePacketHeader message = .ok .update ∧
      message.drop headLen = uint16be withdrawn.length ++ withdrawn ++
        (uint16be attributes.length ++ attributes ++ nlri) := by
  obtain ⟨_, hfirst, h⟩ := bind_ok.mp h
  obtain ⟨_, hsecond, h⟩ := bind_ok.mp h
  obtain ⟨hw, rfl⟩ := sized_eq_ok hfirst
  obtain ⟨ha, rfl⟩ := sized_eq_ok hsecond
  rw [append_assoc] at h
  have hlen : 4 ≤ (uint16be withdrawn.length ++ withdrawn ++
      (uint16be attributes.length ++ attributes ++ nlri)).length := by
    simp [uint16be]
    omega
  generalize uint16be withdrawn.length ++ withdrawn ++ _ = body at h hlen ⊢
  obtain ⟨header, hheader, h⟩ := bind_ok.mp h
  obtain ⟨length, hlength, hheader⟩ := bind_ok.mp hheader
  cases h
  cases hheader
  obtain ⟨hle, hlength⟩ := ite_eq_ok_error.mp hlength
  cases hlength
  refine ⟨hw, ha, ?_, rfl⟩
  generalize hmsg : replicate markerLen 0xff ++ uint16be (headLen + body.length) ++ [2] ++ body =
    message
  have hfield : lengthField message = headLen + body.length :=
    hmsg ▸ ofBytes_uint16be (Nat.lt_succ_of_le hle)
  have htype : typeField message = 2 := hmsg ▸ rfl
  have hmarker : (message.take markerLen).all (· == 0xff) := hmsg ▸ rfl
  have htotal : message.length = headLen + body.length := by
    simp [← hmsg, uint16be, markerLen, headLen]
    omega
  have hmin : ¬ headLen + body.length < minimumLength (PacketType.ofCode 2) := by
    simp only [PacketType.ofCode, minimumLength, headLen]
    omega
  rw [parsePacketHeader, hfield, htype, htotal, if_neg (by omega), if_neg (by simp [hmarker]),
    if_neg (by simp [hmin])]
  rfl

/-- A message is read as the sections that it was built from. -/
theorem parseUpdatePacket_updateMessage {ν : Type} (context : ParseContext ν)
    (h : updateMessage withdrawn attributes nlri = .ok message) :
    parseUpdatePacket context message = do
      let withdrawn := parseIpv4NlriSequence (context.addPath 1 1) "Withdrawn route" withdrawn
      let (pathAttributes, _, framingErrors) ←
        parsePathAttributes context attributes 0 attributes.length
      let nlri := parseIpv4NlriSequence (context.addPath 1 1) "NLRI" nlri
      return ⟨withdrawn.items, pathAttributes, nlri.items,
        framingErrors ++ withdrawn.errors ++ nlri.errors⟩ := by
  obtain ⟨hw, ha, hheader, hdrop⟩ := updateMessage_eq_ok h
  rw [parseUpdatePacket, hheader]
  show parseUpdateMessage context message = _
  rw [parseUpdateMessage, hdrop, takeSection_sized hw (by simp [uint16be])]
  show (takeSection _ _ _ >>= _) = _
  rw [takeSection_sized ha (Nat.zero_le _)]
  show (parsePathAttributes context _ (uint16be attributes.length).length _ >>= _) = _
  have halone := @parsePathAttributes_alone _ context (uint16be attributes.length) attributes nlri
  have hnlri : (uint16be attributes.length ++ attributes ++ nlri).drop (2 + attributes.length) =
      nlri := drop_left' length_append
  rw [show (uint16be attributes.length).length = 2 from rfl] at halone ⊢
  rw [halone]
  cases parsePathAttributes context attributes 0 attributes.length with
  | error e => rfl
  | ok parsed =>
    show Except.ok _ = Except.ok _
    rw [hnlri]

/-- A withdrawal of `10.0.0.0/8` -/
theorem parseUpdatePacket_updateMessage_withdrawal :
    ∃ message, updateMessage [8, 10] [] [] = .ok message ∧
      parseUpdatePacket plainContext message =
        .ok ⟨[⟨0, .ipPrefix 8 [10, 0, 0, 0], []⟩], [], [], []⟩ := by
  obtain ⟨message, h⟩ : ∃ message, updateMessage [8, 10] [] [] = .ok message := ⟨_, rfl⟩
  refine ⟨message, h, (parseUpdatePacket_updateMessage _ h).trans ?_⟩
  decide +kernel

/-! ## Builders -/

namespace Peer

variable (ipaddr : Ipaddr) (peer : Peer) (builder : Builder)

theorem Builder.build_eq : ∃ (δ : Type) (noRoute : String) (start : Route → Except String δ)
    (step : δ → ℕ → Buffer → Route → Except String (Option Buffer))
    (finish : δ → Buffer → Except String Buffer),
    builder.build ipaddr peer = Wire.build noRoute start step finish ∧
      ∀ d nlri message, finish d nlri = .ok message → parsePacketHeader message = .ok .update := by
  cases builder
  all_goals
    simp only [Builder.build, buildUpdateMpMsg, buildUpdateMsgIpv4, buildWithdrawMpMsg,
      buildWithdrawMsgIpv4, Peer.builder]
    refine ⟨_, _, _, _, _, rfl, fun _ _ _ h => ?_⟩
  case updateMpMsg | withdrawMpMsg =>
    obtain ⟨_, -, h⟩ := bind_ok.mp h
    exact (updateMessage_eq_ok h).2.2.1
  case updateMsgIpv4 | withdrawMsgIpv4 => exact (updateMessage_eq_ok h).2.2.1

/-- The routes of a list are sent in messages for consecutive parts of it. Each message takes its
part, is no longer than allowed and has a header that is accepted. Routes are left only if no
message can be built from there or it does not take the first one. -/
theorem sendBuiltRouteLoop_parts (routes : List Route) :
    let build := builder.build ipaddr peer
    ∃ messages parts rest, sendBuiltRouteLoop build routes.length routes = some messages ∧
      routes = parts.flatten ++ rest ∧
      Forall₂ (fun part message => Carries maxPktSize build part message ∧
        parsePacketHeader message = .ok .update) parts messages ∧
      (rest ≠ [] → ∀ count message, build rest = .ok (count, message) →
        count = 0 ∨ maxPktSize < message.length) := by
  obtain ⟨δ, noRoute, start, step, finish, hbuild, hheader⟩ := builder.build_eq ipaddr peer
  rw [hbuild]
  obtain ⟨messages, parts, rest, hmsgs, hlist, hall, hrest⟩ :=
    sendAll_build maxPktSize (le_refl routes.length)
  refine ⟨messages, parts, rest, hmsgs, hlist, hall.imp fun part message h => ⟨h, ?_⟩, hrest⟩
  obtain ⟨_, -, d, -, written, -, hfin⟩ := build_eq_ok.mp h.2.1
  exact hheader d written message hfin

end Peer

end Bgp
