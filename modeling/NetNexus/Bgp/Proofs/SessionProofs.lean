import NetNexus.Bgp.Session
import NetNexus.Stream.Proofs.LoopProofs

/-!
# Progress of the receive loop of a BGP session

Which messages throw, and that the loop progresses on a stream, however it is cut, exactly if the
stream is clean.
-/

namespace Bgp

open List

open Node (Buffer)

namespace Session

variable {ρ : Type*} {sender : RouteSender ρ} {s : Session ρ}

/-! ## Handling an OPEN -/

theorem nextPeerState_idle (state : PeerState) : nextPeerState .idle state = .idle := by
  simp [nextPeerState]

theorem nextPeerState_ne_established {state : PeerState} (h : state ≠ .established)
    (peerState : PeerState) : nextPeerState state peerState ≠ .established := by
  unfold nextPeerState
  split
  · rename_i hnoNeg
    rw [hnoNeg.2]
    simp
  · exact h

/-- Socket, AS number and state are the same, and no peer has become established. -/
structure Refused (s s' : Session ρ) : Prop where
  socket : s'.socket = s.socket
  localAs : s'.localAs = s.localAs
  sessState : s'.sessState = s.sessState
  peers : ∀ peer ∈ s'.peers, peer.2 = .established → peer ∈ s.peers

theorem Refused.refl (s : Session ρ) : Refused s s := ⟨rfl, rfl, rfl, fun _ hpeer _ => hpeer⟩

theorem Refused.trans {s s' t : Session ρ} (h : Refused s s') (h' : Refused s' t) : Refused s t :=
  ⟨h'.socket.trans h.socket, h'.localAs.trans h.localAs, h'.sessState.trans h.sessState,
    fun peer hpeer he => h.peers peer (h'.peers peer hpeer he) he⟩

theorem refused_foldl {ι : Type*} {f : Session ρ → ι → Session ρ}
    (hf : ∀ s x, Refused s (f s x)) (xs : List ι) (s : Session ρ) : Refused s (xs.foldl f s) := by
  induction xs generalizing s with
  | nil => exact .refl s
  | cons x _ ih => exact (hf s x).trans (ih _)

theorem addExtendedNextHop_refused (s : Session ρ) (tuple : NextHopTuple) :
    Refused s (s.addExtendedNextHop tuple) := by
  unfold addExtendedNextHop
  split <;> exact ⟨rfl, rfl, rfl, fun _ hpeer _ => hpeer⟩

theorem applyCapability_refused (s : Session ρ) (cap : Capability) :
    Refused s (s.applyCapability cap) := by
  have hflags : Refused s { s with peerCapFlags := s.peerCapFlags ||| cap.flag } :=
    ⟨rfl, rfl, rfl, fun _ hpeer _ => hpeer⟩
  cases cap with
  | multiprotocolExtensions _ _ =>
    dsimp only [applyCapability]
    split <;> exact ⟨rfl, rfl, rfl, fun _ hpeer _ => hpeer⟩
  | extendedNextHopEncoding nextHops =>
    exact hflags.trans (refused_foldl addExtendedNextHop_refused nextHops _)
  | addPath addPaths =>
    have hadd : ∀ (s : Session ρ) tuple, Refused s (s.setPeerAddPath tuple) :=
      fun _ _ => ⟨rfl, rfl, rfl, fun _ hpeer _ => hpeer⟩
    exact hflags.trans (refused_foldl hadd addPaths _)
  | routeRefresh | fourOctetAs _ | other _ _ => exact hflags
  | bgpRole _ => exact ⟨rfl, rfl, rfl, fun _ hpeer _ => hpeer⟩

theorem refuseFamily_refused (s : Session ρ) (family : ℕ × AddrFamily) :
    Refused s (s.refuseFamily family) := by
  unfold refuseFamily
  split
  · exact .refl s
  · refine ⟨rfl, rfl, rfl, fun peer hpeer h => ?_⟩
    obtain ⟨p, hp, rfl⟩ := List.mem_map.mp hpeer
    by_cases hkey : p.1 = .ofFamily family.1 family.2
    · rw [if_pos hkey] at h
      exact absurd h (nextPeerState_ne_established (by simp) p.2)
    · rw [if_neg hkey]
      exact hp

theorem handleOpen_of_ok {packet : Buffer} {parsed : OpenMessage}
    (h : receivedOpen packet = .ok parsed) : ∃ refused, Refused s refused ∧ s.handleOpen packet =
      if s.socket then
        ({ refused.changeSessionFsmState .openConfirm with
          peerType := if s.localAs = some (parsed.asn : ℤ) then .ibgp else .ebgp }, none)
      else (refused, some nullSocketError) := by
  have hcaps := refused_foldl applyCapability_refused parsed.capabilities s
  have hrefu := refused_foldl refuseFamily_refused
    (parsed.capabilities.foldl applyCapability s).negotiated
    (parsed.capabilities.foldl applyCapability s)
  refine ⟨_, hcaps.trans hrefu, ?_⟩
  rw [handleOpen, h]
  rw [← (hcaps.trans hrefu).socket, ← (hcaps.trans hrefu).localAs]
  rfl

/-! ## Messages that throw -/

theorem handleOpen_throws_iff (packet : Buffer) : (s.handleOpen packet).2 ≠ none ↔
    s.socket = false ∨ ∀ parsed, receivedOpen packet ≠ .ok parsed := by
  cases hparse : receivedOpen packet with
  | error e => simp [handleOpen, hparse]
  | ok _ =>
    obtain ⟨_, -, heq⟩ := handleOpen_of_ok hparse
    rw [heq]
    cases hsock : s.socket <;> simp

/-! ## Sending routes -/

variable (keys : List InstanceKey)

theorem sendRoutes_of_none
    (h : ∀ key, (key, PeerState.established) ∉ s.peers) : s.sendRoutes sender keys = (s, none) := by
  induction keys with
  | nil => rfl
  | cons key _ ih =>
    rw [sendRoutes, sendRoute, if_neg (h key)]
    exact ih

theorem resetSession_not_established (h : s.socket = true) (key : InstanceKey) :
    (key, PeerState.established) ∉ s.resetSession.peers := by
  rw [resetSession, if_pos h]
  simp [changeSessionFsmState, nextPeerState]

theorem sendRoutes_throws_iff (h : s.socket = true) : (s.sendRoutes sender keys).2 ≠ none ↔
    SendingThrows sender s.routes
      (keys.filter fun key => (key, PeerState.established) ∈ s.peers) := by
  induction keys generalizing s with
  | nil => simp [sendRoutes, SendingThrows]
  | cons key keys ih =>
    rw [sendRoutes, sendRoute]
    by_cases hmem : (key, PeerState.established) ∈ s.peers
    · rw [if_pos hmem, filter_cons_of_pos (by simpa using hmem), SendingThrows]
      cases hsend : sender s.routes key with
      | sent _ => exact ih h
      | resync routes =>
        dsimp only
        rw [sendRoutes_of_none keys (resetSession_not_established (s := { s with routes }) h)]
        simp
      | threw _ _ => simp
    · rw [if_neg hmem, filter_cons_of_neg (by simpa using hmem)]
      exact ih h

theorem established_filter (s : Session ρ) :
    ((s.changeSessionFsmState .established).peers.map Prod.fst).filter
      (fun key => (key, PeerState.established) ∈ (s.changeSessionFsmState .established).peers) =
      s.negotiatedPeers := by
  have hkeys : (s.changeSessionFsmState .established).peers.map Prod.fst =
      s.peers.map Prod.fst := by
    simp [changeSessionFsmState]
  rw [hkeys]
  refine filter_congr fun key _ => ?_
  rw [Bool.eq_iff_iff, any_eq_true]
  simp only [changeSessionFsmState, mem_map, decide_eq_true_iff, Prod.mk.injEq]
  refine exists_congr fun p => and_congr_right fun _ => and_congr_right fun _ => ?_
  unfold nextPeerState
  by_cases hneg : p.2 = .noNeg
  · simp [hneg]
  · simp [hneg]

theorem handleKeepAlive_throws_iff : (s.handleKeepAlive sender).2 ≠ none ↔ s.socket = false ∨
    s.sessState = .openConfirm ∧ SendingThrows sender s.routes s.negotiatedPeers := by
  unfold handleKeepAlive
  cases hsock : s.socket with
  | false => simp
  | true =>
    by_cases hstate : s.sessState = .openConfirm
    · have hthrows := @sendRoutes_throws_iff ρ sender (s.changeSessionFsmState .established)
        ((s.changeSessionFsmState .established).peers.map Prod.fst) hsock
      rw [established_filter] at hthrows
      have hroutes : (s.changeSessionFsmState .established).routes = s.routes := rfl
      rw [hroutes] at hthrows
      simpa [hstate] using hthrows
    · simp [hstate]

theorem handleRouteRefresh_throws_iff (packet : Buffer) :
    (s.handleRouteRefresh sender packet).2 ≠ none ↔
      ∃ parsed, receivedRouteRefresh packet = .ok parsed ∧
        (⟨0, parsed.afi, parsed.safi⟩, .established) ∈ s.peers ∧
        SendingThrows sender s.routes [⟨0, parsed.afi, parsed.safi⟩] := by
  unfold handleRouteRefresh
  cases hparse : receivedRouteRefresh packet with
  | error e => simp
  | ok parsed =>
    dsimp only
    rw [sendRoute]
    by_cases hmem : (⟨0, parsed.afi, parsed.safi⟩, PeerState.established) ∈ s.peers
    · cases hsend : sender s.routes ⟨0, parsed.afi, parsed.safi⟩ <;>
        simp [SendingThrows, hsend, hmem]
    · simp [hmem]

theorem handleMessage_throws_iff (type : ℕ) (packet : Buffer) :
    (s.handleMessage sender type packet).2 ≠ none ↔ Throws sender s type packet := by
  unfold handleMessage Throws
  cases PacketType.ofCode type with
  | none => simp
  | some known =>
    cases known with
    | openMessage => exact handleOpen_throws_iff packet
    | keepalive => exact handleKeepAlive_throws_iff
    | routeRefresh => exact handleRouteRefresh_throws_iff packet
    | notification => simp [handleNotification]
    | update => simp

/-! ## Rounds of the loop -/

variable {buffer : Buffer}

theorem receive_wait (h : buffer.length < headLen ∨ buffer.length < lengthField buffer) :
    (receive sender).next s buffer = .wait := by
  dsimp only [receive]
  rcases h with h | h
  · rw [if_pos h]
  · rw [if_pos h, ite_self]

section

variable (hhead : headLen ≤ buffer.length) (hlen : lengthField buffer ≤ buffer.length)

include hhead hlen

theorem receive_complete : (receive sender).next s buffer =
      match s.handleMessage sender (typeField buffer) (buffer.take (lengthField buffer)) with
      | (s', none) => .take (lengthField buffer) s'
          (some ⟨typeField buffer, buffer.take (lengthField buffer)⟩)
      | (s', some error) => .fail s' error := by
  dsimp only [receive]
  rw [if_neg (by omega)]
  exact if_neg (by omega)

theorem receive_take
    (h : ¬ Throws sender s (typeField buffer) (buffer.take (lengthField buffer))) :
    (receive sender).next s buffer = .take (lengthField buffer)
      (s.handleMessage sender (typeField buffer) (buffer.take (lengthField buffer))).1
      (some ⟨typeField buffer, buffer.take (lengthField buffer)⟩) := by
  rw [receive_complete hhead hlen]
  rw [← handleMessage_throws_iff, not_not] at h
  split
  · rename_i heq
    rw [heq]
  · rename_i heq
    rw [heq] at h
    cases h

theorem receive_fail
    (h : Throws sender s (typeField buffer) (buffer.take (lengthField buffer))) :
    ∃ s' error, (receive sender).next s buffer = .fail s' error := by
  rw [receive_complete hhead hlen]
  rw [← handleMessage_throws_iff] at h
  split
  · rename_i heq
    rw [heq] at h
    exact absurd rfl h
  · exact ⟨_, _, rfl⟩

end

/-! ## Later input -/

theorem slice_append {offset length : ℕ} (h : offset + length ≤ buffer.length) (more : Buffer) :
    ((buffer ++ more).drop offset).take length = (buffer.drop offset).take length := by
  rw [drop_append_of_le_length (by omega), take_append_of_le_length (by rw [length_drop]; omega)]

theorem lengthField_append (h : headLen ≤ buffer.length) (more : Buffer) :
    lengthField (buffer ++ more) = lengthField buffer := by
  have hfield : markerLen + 2 ≤ buffer.length := le_trans (by decide) h
  rw [lengthField, slice_append hfield, lengthField]

theorem typeField_append (h : headLen ≤ buffer.length) (more : Buffer) :
    typeField (buffer ++ more) = typeField buffer := by
  have hfield : markerLen + 2 + 1 ≤ buffer.length := h
  rw [typeField, slice_append hfield, typeField]

/-- A round that does not wait does the same if there is more input. -/
theorem receive_append (h : (receive sender).next s buffer ≠ .wait) (more : Buffer) :
    lengthField buffer ≤ buffer.length ∧
      (receive sender).next s (buffer ++ more) = (receive sender).next s buffer := by
  have hcompl : headLen ≤ buffer.length ∧ lengthField buffer ≤ buffer.length := by
    by_contra hinco
    exact h (receive_wait (by omega))
  obtain ⟨hhead, hlen⟩ := hcompl
  refine ⟨hlen, ?_⟩
  have hlen' := lengthField_append hhead more
  rw [receive_complete hhead hlen, receive_complete (by rw [length_append]; omega)
    (by rw [length_append]; omega), hlen', typeField_append hhead,
    take_append_of_le_length hlen]

theorem receive_take_length {n : ℕ} {s' : Session ρ} {out : Option Received}
    (h : (receive sender).next s buffer = .take n s' out) : n = lengthField buffer := by
  dsimp only [receive] at h
  split at h
  · cases h
  · split at h
    · cases h
    · split at h <;> cases h
      rfl

theorem receive_stable : (receive sender).Stable id where
  take_append {s buffer n s' out} h more := by
    rw [(receive_append (by rw [h]; nofun) more).2, h]
  take_le {s buffer n s' out} h := by
    rw [receive_take_length h]
    exact (receive_append (by rw [h]; nofun) []).1
  fail_append {s buffer s' e} h more := by
    refine ⟨e, ?_, rfl⟩
    rw [(receive_append (by rw [h]; nofun) more).2, h]

/-! ## Clean streams -/

theorem Clean.sound (h : Clean sender s buffer) : (receive sender).Sound headLen ⟨s, buffer⟩ := by
  induction h with
  | @incomplete s buffer h =>
    intro ms v hsteps
    have hwait : (receive sender).next s buffer = .wait := receive_wait h
    obtain ⟨-, rfl⟩ := hsteps.eq_nil_of_halted (Stream.Decoder.halted_of_wait hwait)
    rw [hwait]
    trivial
  | @message s buffer least complete handled rest ih =>
    have htake := receive_take (least.trans complete) complete handled
    intro ms v hsteps
    cases hsteps with
    | refl =>
      rw [htake]
      exact least
    | head h hsteps =>
      rw [htake] at h
      cases h
      exact ih _ _ hsteps

theorem clean_of_sound {fuel : ℕ} (hfuel : buffer.length < fuel)
    (h : (receive sender).Sound headLen ⟨s, buffer⟩) : Clean sender s buffer := by
  induction fuel generalizing s buffer with
  | zero => omega
  | succ _ ih =>
    by_cases hinco : buffer.length < headLen ∨ buffer.length < lengthField buffer
    · exact .incomplete hinco
    · have hverd := h [] _ (.refl _)
      have hhead : headLen ≤ buffer.length := by omega
      have hlen : lengthField buffer ≤ buffer.length := by omega
      by_cases hthrows : Throws sender s (typeField buffer) (buffer.take (lengthField buffer))
      · obtain ⟨_, _, hfail⟩ := receive_fail hhead hlen hthrows
        rw [hfail] at hverd
        exact hverd.elim
      · have htake := receive_take hhead hlen hthrows
        rw [htake] at hverd
        have hleast : headLen ≤ lengthField buffer := hverd
        refine .message hleast hlen hthrows (ih ?_ (h.step htake))
        unfold headLen at hleast
        rw [length_drop]
        omega

theorem receive_progresses_iff_clean (sender : RouteSender ρ) (s : Session ρ) (stream : Buffer) :
    (receive sender).Progresses headLen ⟨s, []⟩ stream ↔ Clean sender s stream := by
  have hwait : (receive sender).next s [] = .wait := receive_wait (.inl (by decide))
  rw [Stream.Decoder.progresses_iff_sound receive_stable (by decide) hwait]
  constructor
  · intro h
    exact clean_of_sound (Nat.lt_succ_self _) h
  · intro h
    exact h.sound

/-! ## Streams that are not clean -/

/-- An UPDATE whose header gives the length 0. -/
def zeroLength : Buffer := List.replicate markerLen 0xff ++ [0, 0, 2]

def openVersionThree : Buffer :=
  List.replicate markerLen 0xff ++ [0, 29, 1, 3, 0, 1, 0, 180, 10, 0, 0, 1, 0]

/-- A connection that has just sent its OPEN, with no peers. -/
def openSent : Session Unit where
  vrfIndex := 0
  localAs := some 1
  socket := true
  sessState := .openSent
  peerCapFlags := 0
  peerAddrFamilyFlags := 0
  peerRole := 255
  peerType := .invalid
  peerAddPathMap := .empty
  peerExtendedNextHopFamilies := []
  peers := []
  routes := ()

/-- A length of 0 makes the loop spin, and an OPEN that does not parse stays at the head of the
buffer. -/
theorem receive_spins_and_throws :
    (∀ fuel acc, (receive fun routes _ => .sent routes).drain none fuel ⟨openSent, zeroLength⟩ acc =
      none) ∧
    (receive fun routes _ => .sent routes).drain none 2 ⟨openSent, openVersionThree⟩ [] =
      some (.thrown noCapabilitiesError [] ⟨openSent, openVersionThree⟩) := by
  refine ⟨fun fuel => ?_, rfl⟩
  induction fuel with
  | zero => intro acc; rfl
  | succ _ ih =>
    intro acc
    exact ih _

end Session

end Bgp
