import NetNexus.Bgp.Fsm
import NetNexus.Bgp.Proofs.SessionProofs

/-!
# Safety of the session state machine

What the handling of a message can do to the states of the session and its peers, and that regular
events keep a session safe: it is not idle only with a socket, established only after an OPEN and a
KEEPALIVE on its connection, and no peer is established without it.
-/

namespace Bgp

open List

open Node (Buffer)

namespace Session

variable {ρ : Type*} {sender : RouteSender ρ} {s s' t : Session ρ}

/-! ## Parts of a session -/

/-- The states are those of before. -/
structure SameStates (s s' : Session ρ) : Prop where
  socket : s'.socket = s.socket
  sessState : s'.sessState = s.sessState
  peers : s'.peers = s.peers

/-- The session has been reset. -/
structure WasReset (s s' : Session ρ) : Prop where
  socket : s'.socket = false
  sessState : s'.sessState = .idle
  peers : s'.peers = s.peers.map fun p => (p.1, .idle)

theorem SameStates.refl (s : Session ρ) : SameStates s s := ⟨rfl, rfl, rfl⟩

theorem SameStates.trans (h : SameStates s s') (h' : SameStates s' t) : SameStates s t :=
  ⟨h'.socket.trans h.socket, h'.sessState.trans h.sessState, h'.peers.trans h.peers⟩

/-! ## Peers -/

theorem changeSessionFsmState_peers_ne {state : PeerState} (h : state ≠ .established) :
    ∀ peer ∈ (s.changeSessionFsmState state).peers, peer.2 ≠ .established := by
  intro peer hpeer
  obtain ⟨p, -, rfl⟩ := List.mem_map.mp hpeer
  exact nextPeerState_ne_established h p.2

/-! ## Sending routes -/

/-- What sending routes leaves behind. -/
def Sent (s s' : Session ρ) : Prop := SameStates s s' ∨ WasReset s s'

theorem Sent.trans (h : Sent s s') (h' : Sent s' t) : Sent s t := by
  rcases h with h | h <;> rcases h' with h' | h'
  · exact .inl (h.trans h')
  · exact .inr ⟨h'.socket, h'.sessState, by rw [h'.peers, h.peers]⟩
  · exact .inr ⟨h'.socket.trans h.socket, h'.sessState.trans h.sessState, h'.peers.trans h.peers⟩
  · refine .inr ⟨h'.socket, h'.sessState, ?_⟩
    rw [h'.peers, h.peers, map_map]
    rfl

theorem resetSession_sent (s : Session ρ) : Sent s s.resetSession := by
  unfold resetSession
  split
  · exact .inr ⟨rfl, rfl, map_congr_left fun p _ => by rw [nextPeerState_idle]⟩
  · exact .inl (.refl s)

theorem sendRoute_sent (key : InstanceKey) : Sent s (s.sendRoute sender key).1 := by
  unfold sendRoute
  split
  · split
    · exact .inl ⟨rfl, rfl, rfl⟩
    · rename_i routes _
      have hrts : Sent s { s with routes } := .inl ⟨rfl, rfl, rfl⟩
      exact hrts.trans (resetSession_sent _)
    · exact .inl ⟨rfl, rfl, rfl⟩
  · exact .inl (.refl s)

theorem sendRoutes_sent (keys : List InstanceKey) : Sent s (s.sendRoutes sender keys).1 := by
  induction keys generalizing s with
  | nil => exact .inl (.refl s)
  | cons key _ ih =>
    have hfirst : Sent s (s.sendRoute sender key).1 := sendRoute_sent key
    unfold sendRoutes
    split
    · rename_i heq
      rw [heq] at hfirst
      exact hfirst
    · rename_i heq
      rw [heq] at hfirst
      exact hfirst.trans ih

/-! ## Messages -/

/-- What handling a message does to socket and states. -/
inductive Effect (s : Session ρ) (m : Received) (s' : Session ρ) : Prop where
  | sent (h : Sent s s')
  | opened (hopen : PacketType.ofCode m.type = some .openMessage)
      (hparse : ∃ parsed, receivedOpen m.packet = .ok parsed) (hsock : s.socket = true)
      (socket : s'.socket = true) (sessState : s'.sessState = .openConfirm)
      (peers : ∀ peer ∈ s'.peers, peer.2 ≠ .established)
  /-- An OPEN that cannot be answered. -/
  | unanswered (hopen : PacketType.ofCode m.type = some .openMessage)
      (hparse : ∃ parsed, receivedOpen m.packet = .ok parsed) (hsock : s.socket = false)
      (socket : s'.socket = false) (sessState : s'.sessState = s.sessState)
      (peers : ∀ peer ∈ s'.peers, peer.2 = .established → peer ∈ s.peers)
  /-- The session is established, and perhaps reset again. -/
  | established (hkeepAlive : PacketType.ofCode m.type = some .keepalive) (hsock : s.socket = true)
      (hstate : s.sessState = .openConfirm) (h : Sent (s.changeSessionFsmState .established) s')
  | notified (hnotif : PacketType.ofCode m.type = some .notification)
      (socket : s'.socket = false) (sessState : s'.sessState = s.sessState)
      (peers : s'.peers = s.peers.map fun p => (p.1, .idle))

theorem handleOpen_effect {m : Received} (htype : PacketType.ofCode m.type = some .openMessage) :
    Effect s m (s.handleOpen m.packet).1 := by
  cases hparse : receivedOpen m.packet with
  | error e =>
    rw [handleOpen, hparse]
    exact .sent (.inl (.refl s))
  | ok parsed =>
    obtain ⟨_, hrefu, heq⟩ := handleOpen_of_ok hparse
    rw [heq]
    split
    · rename_i hlive
      exact .opened htype ⟨parsed, hparse⟩ hlive (hrefu.socket.trans hlive) rfl
        (changeSessionFsmState_peers_ne (by simp))
    · rename_i hdead
      rw [Bool.not_eq_true] at hdead
      exact .unanswered htype ⟨parsed, hparse⟩ hdead (hrefu.socket.trans hdead)
        hrefu.sessState hrefu.peers

theorem handleKeepAlive_effect {m : Received} (htype : PacketType.ofCode m.type = some .keepalive) :
    Effect s m (s.handleKeepAlive sender).1 := by
  unfold handleKeepAlive
  split
  · rename_i hsock
    split
    · rename_i hstate
      exact .established htype hsock hstate (sendRoutes_sent _)
    · exact .sent (.inl (.refl s))
  · exact .sent (.inl (.refl s))

theorem handleMessage_effect (m : Received) :
    Effect s m (s.handleMessage sender m.type m.packet).1 := by
  unfold handleMessage
  split
  · rename_i htype
    exact handleOpen_effect htype
  · rename_i htype
    exact handleKeepAlive_effect htype
  · rename_i htype
    exact .notified htype rfl rfl rfl
  · refine .sent ?_
    unfold handleRouteRefresh
    split
    · exact .inl (.refl s)
    · exact sendRoute_sent _
  · exact .sent (.inl (.refl s))
  · exact .sent (.inl (.refl s))

end Session

namespace Fsm

open Session

variable {ρ : Type*} {sender : RouteSender ρ} {f g : Fsm ρ}

/-! ## Rounds -/

theorem round_cases (sender : RouteSender ρ) (f : Fsm ρ) (socket : ℕ) :
    f.round sender socket = { f with reading := none } ∨
    f.Complete ∧ Effect f.session f.message (f.round sender socket).session ∧
      (f.round sender socket).connection = f.connection ∧
      (f.round sender socket).received = f.received ++ [(socket, f.message)] ∧
      ((f.round sender socket).reading = f.reading ∨ (f.round sender socket).reading = none) := by
  by_cases hcompl : f.Complete
  · refine .inr ⟨hcompl, ?_⟩
    have heff : Effect f.session f.message (f.session.handleMessage sender
        (typeField f.packetBuffer) (f.packetBuffer.take (lengthField f.packetBuffer))).1 :=
      handleMessage_effect f.message
    unfold round
    rw [receive_complete hcompl.1 hcompl.2]
    generalize f.session.handleMessage sender _ _ = handled at heff
    rcases handled with ⟨_, _ | _⟩
    · exact ⟨heff, rfl, rfl, .inl rfl⟩
    · exact ⟨heff, rfl, rfl, .inr rfl⟩
  · left
    unfold round
    rw [receive_wait]
    by_contra hwait
    rw [not_or, Nat.not_lt, Nat.not_lt] at hwait
    exact hcompl hwait

/-! ## The invariant -/

/-- What holds of every state that regular events lead to. -/
structure Inv (f : Fsm ρ) : Prop extends Safe f where
  opened : f.session.sessState = .openConfirm → f.Opened
  reading : ∀ socket, f.reading = some socket → socket = f.connection

section

variable {more : List (ℕ × Received)} (hconn : g.connection = f.connection)
  (hrecv : g.received = f.received ++ more)

include hconn hrecv

theorem Opened.mono (h : f.Opened) : g.Opened := by
  obtain ⟨m, hmem, hopen⟩ := h
  refine ⟨m, ?_, hopen⟩
  rw [hconn, hrecv]
  exact mem_append_left _ hmem

theorem Confirmed.mono (h : f.Confirmed) : g.Confirmed := by
  obtain ⟨before, after, opening, keepAlive, hlist, hopen⟩ := h
  refine ⟨before, after ++ more, opening, keepAlive, ?_, hconn ▸ hopen⟩
  rw [hrecv, hlist, hconn, append_assoc]
  rfl

theorem Inv.same (h : f.Inv) (hstates : SameStates f.session g.session)
    (hread : ∀ socket, g.reading = some socket → socket = g.connection) : g.Inv where
  live := by
    rw [hstates.sessState, hstates.socket]
    exact h.live
  confirmed := by
    rw [hstates.sessState]
    exact fun hstate => (h.confirmed hstate).mono hconn hrecv
  peers := by
    rw [hstates.sessState, hstates.peers]
    exact h.peers
  opened := by
    rw [hstates.sessState]
    exact fun hstate => (h.opened hstate).mono hconn hrecv
  reading := hread

end

theorem Inv.idle (hstate : g.session.sessState = .idle)
    (hpeers : ∀ peer ∈ g.session.peers, peer.2 ≠ .established)
    (hread : ∀ socket, g.reading = some socket → socket = g.connection) : g.Inv where
  live := absurd hstate
  confirmed := fun hest => by simp [hstate] at hest
  peers := fun peer hpeer h => absurd h (hpeers peer hpeer)
  opened := fun hconf => by simp [hstate] at hconf
  reading := hread

theorem idle_ne_established {peers : List (InstanceKey × PeerState)} :
    ∀ peer ∈ peers.map fun p => (p.1, PeerState.idle), peer.2 ≠ .established := by
  intro peer hpeer
  obtain ⟨p, -, rfl⟩ := List.mem_map.mp hpeer
  simp

theorem Inv.round (h : f.Inv) (hreg : f.Regular .round) {socket : ℕ}
    (hreading : f.reading = some socket) : (f.round sender socket).Inv := by
  have hsock := h.reading socket hreading
  rcases round_cases sender f socket with hwait | ⟨hcompl, heff, hconn, hrecv,
    hnext⟩
  · rw [hwait]
    exact h.same (f := f) rfl (append_nil _).symm (.refl _) nofun
  · obtain ⟨hnotif, hka⟩ := hreg hcompl
    have hread : ∀ c, (f.round sender socket).reading = some c →
        c = (f.round sender socket).connection := by
      intro c hc
      rw [hconn]
      rcases hnext with hnext | hnext
      · exact h.reading c (hnext.symm.trans hc)
      · rw [hnext] at hc
        cases hc
    cases heff with
    | sent hsent =>
      rcases hsent with hsame | hreset
      · exact h.same hconn hrecv hsame hread
      · exact .idle hreset.sessState (hreset.peers ▸ idle_ne_established) hread
    | opened htype hparse _ hlive hstate hpeers =>
      exact {
        live := fun _ => hlive
        confirmed := fun hest => by simp [hstate] at hest
        peers := fun peer hpeer hest => absurd hest (hpeers peer hpeer)
        opened := fun _ => ⟨f.message, by rw [hrecv, hconn, hsock]; simp, htype, hparse⟩
        reading := hread }
    | unanswered _ _ hdead _ hstate hpeers =>
      have hidle : f.session.sessState = .idle := by
        by_contra hne
        simp [h.live hne] at hdead
      refine .idle (hstate.trans hidle) (fun peer hpeer hest => ?_) hread
      have := h.peers peer (hpeers peer hpeer hest) hest
      simp [hidle] at this
    | established htype hlive hstate hsent =>
      rcases hsent with hsame | hreset
      · have hest : (f.round sender socket).session.sessState = .established := hsame.sessState
        obtain ⟨opening, hmem, hopen⟩ := h.opened hstate
        refine ⟨⟨fun _ => hsame.socket.trans hlive, fun _ => ?_, fun _ _ _ => hest⟩, ?_, hread⟩
        · refine ⟨f.received, [], opening, f.message, ?_, hconn ▸ hmem, hopen,
            hka htype hstate⟩
          rw [hrecv, hconn, hsock]
        · intro hconf
          simp [hest] at hconf
      · exact .idle hreset.sessState (hreset.peers ▸ idle_ne_established) hread
    | notified htype _ hstate hpeers =>
      exact .idle (hstate.trans (hnotif htype)) (hpeers ▸ idle_ne_established) hread

theorem round_subsides (hreg : f.Regular .round) (socket : ℕ) (hopen : ¬ IsOpen f.message)
    (hka : ¬ IsKeepAlive f.message) :
    Subsides f.session (f.round sender socket).session := by
  have hsame : ∀ {s s' : Session ρ}, SameStates s s' → Subsides s s' := by
    intro s s' h
    refine ⟨.inl h.sessState, ?_⟩
    rw [h.peers]
    exact List.forall₂_same.mpr fun p _ => ⟨rfl, .inl rfl⟩
  have hidle : ∀ {s s' : Session ρ}, s'.sessState = s.sessState ∨ s'.sessState = .idle →
      (s'.peers = s.peers.map fun p => (p.1, .idle)) → Subsides s s' := by
    intro s s' hstate hpeers
    refine ⟨hstate, ?_⟩
    rw [hpeers]
    exact List.forall₂_map_right_iff.mpr (List.forall₂_same.mpr fun p _ => ⟨rfl, .inr rfl⟩)
  rcases round_cases sender f socket with hwait | ⟨hcompl, heff, -⟩
  · rw [hwait]
    exact hsame (.refl _)
  · cases heff with
    | sent hsent =>
      rcases hsent with hsent | hreset
      · exact hsame hsent
      · exact hidle (.inr hreset.sessState) hreset.peers
    | opened htype hparse | unanswered htype hparse => exact absurd ⟨htype, hparse⟩ hopen
    | established htype _ hstate => exact absurd ((hreg hcompl).2 htype hstate) hka
    | notified _ _ hstate hpeers => exact hidle (.inl hstate) hpeers

/-! ## Runs -/

theorem Inv.step (h : f.Inv) {event : Event} (hreg : f.Regular event)
    (hstep : f.step sender event = some g) : g.Inv := by
  cases hread : f.reading with
  | some _ =>
    cases event with
    | round =>
      simp only [Fsm.step, hread, Option.some.injEq] at hstep
      subst hstep
      exact h.round hreg hread
    | _ => simp [Fsm.step, hread] at hstep
  | none =>
    cases event <;> simp only [Fsm.step, hread, Option.some.injEq, reduceCtorEq] at hstep <;>
      subst hstep
    case connect socket openSent =>
      cases openSent with
      | true | _ =>
        exact {
          live := fun _ => rfl
          confirmed := nofun
          peers := fun peer hpeer he =>
            absurd he (changeSessionFsmState_peers_ne (by simp) peer hpeer)
          opened := nofun
          reading := nofun }
    case data socket bytes =>
      refine h.same (f := f) rfl (append_nil _).symm (.refl _) fun c hc => ?_
      exact (Option.some.inj hc).symm.trans hreg.2
    case close socket =>
      unfold handleSocketClosed
      split
      · exact .idle rfl (changeSessionFsmState_peers_ne (by simp)) h.reading
      · exact h
    case holdTimer =>
      unfold handleHoldTimerExpired
      split
      · exact .idle rfl (changeSessionFsmState_peers_ne (by simp)) h.reading
      · exact h
    case reset =>
      rcases resetSession_sent f.session with hsame | hreset
      · exact h.same (f := f) rfl (append_nil _).symm hsame h.reading
      · exact .idle hreset.sessState (hreset.peers ▸ idle_ne_established) h.reading
    case clear =>
      exact h.same (f := f) rfl (append_nil _).symm ⟨rfl, rfl, rfl⟩ h.reading

theorem Reaches.inv {start : Fsm ρ} (hstart : start.Fresh)
    (h : Reaches sender Regular start f) : f.Inv := by
  induction h with
  | start =>
    refine .idle hstart.sessState (fun peer hpeer => ?_) fun c hc => ?_
    · rw [hstart.peers peer hpeer]
      simp
    · rw [hstart.reading] at hc
      cases hc
  | step _ _ hreg hstep ih => exact ih.step hreg hstep

/-- A session that has gone through regular events only is safe, and a message that is neither a
well-formed OPEN nor a well-formed KEEPALIVE changes no state but to idle. -/
theorem reaches_safe (start : Fsm ρ) (hstart : start.Fresh) (f : Fsm ρ)
    (h : Reaches sender Regular start f) :
    f.Safe ∧ ∀ socket, f.Regular .round → ¬ IsOpen f.message → ¬ IsKeepAlive f.message →
      Subsides f.session (f.round sender socket).session := by
  refine ⟨h.inv hstart |>.toSafe, fun socket hreg hopen hka => ?_⟩
  exact round_subsides hreg socket hopen hka

/-! ## Sessions that are not safe -/

/-- A session with a peer for IPv4 unicast. -/
def sampleStart : Fsm Unit where
  session :=
    { vrfIndex := 0, localAs := some 65000, socket := false, sessState := .idle, peerCapFlags := 0
      peerAddrFamilyFlags := 0, peerRole := Session.roleInvalid, peerType := .invalid
      peerAddPathMap := .empty, peerExtendedNextHopFamilies := [], peers := [(⟨0, 1, 1⟩, .idle)]
      routes := () }
  connection := 0
  packetBuffer := []
  reading := none
  received := []

theorem sampleStart_fresh : sampleStart.Fresh := by
  refine ⟨rfl, rfl, ?_, rfl⟩
  decide

def samplePacket (marker : UInt8) (body : Buffer) : Buffer :=
  List.replicate 16 marker ++ Node.uint16be (body.length + 18) ++ body

def sampleOpen : Buffer := samplePacket 0xff [1, 4, 0xfd, 0xe8, 0, 180, 10, 0, 0, 2, 0]

def sampleRun (events : List Event) : Option (Fsm Unit) :=
  sampleStart.run (fun routes _ => .sent routes) events

theorem not_confirmed (h : ∀ entry ∈ f.received, entry.1 = f.connection → ¬ IsKeepAlive entry.2) :
    ¬ f.Confirmed := by
  rintro ⟨_, _, -, keepAlive, hlist, -, -, hka⟩
  refine h (f.connection, keepAlive) ?_ rfl hka
  rw [hlist]
  simp

/-- After a NOTIFICATION the session stays established without a socket, also when the socket
closes; a KEEPALIVE with a wrong marker establishes it; and so do messages of a connection that a
later one has replaced. -/
theorem sampleRun_unsafe :
    (∃ f, sampleRun [.connect 1 true, .data 1 (sampleOpen ++ samplePacket 0xff [4] ++
        samplePacket 0xff [3, 6, 0]), .round, .round, .round, .round, .close 1] = some f ∧
      f.session.sessState = .established ∧ f.session.socket = false) ∧
    (∃ f, sampleRun [.connect 1 true, .data 1 (sampleOpen ++ samplePacket 0 [4]), .round, .round] =
        some f ∧ f.session.sessState = .established ∧ ¬ f.Confirmed) ∧
    (∃ f,
      sampleRun [.connect 1 true, .connect 2 true, .data 1 (sampleOpen ++ samplePacket 0xff [4]),
        .round, .round] = some f ∧ f.session.sessState = .established ∧ ¬ f.Confirmed) := by
  refine ⟨⟨_, rfl, rfl, rfl⟩, ⟨_, rfl, rfl, ?_⟩, ⟨_, rfl, rfl, ?_⟩⟩
  · refine not_confirmed fun entry hentry _ hka => ?_
    have hmem : entry ∈ [(1, ⟨1, sampleOpen⟩), (1, ⟨4, samplePacket 0 [4]⟩)] := hentry
    simp only [mem_cons, not_mem_nil, or_false] at hmem
    rcases hmem with rfl | rfl
    · exact nomatch hka.1
    · exact nomatch hka.2
  · refine not_confirmed fun entry hentry hsock _ => ?_
    have hmem : entry ∈ [(1, ⟨1, sampleOpen⟩), (1, ⟨4, samplePacket 0xff [4]⟩)] := hentry
    have hother : entry.1 = 2 := hsock
    simp only [mem_cons, not_mem_nil, or_false] at hmem
    rcases hmem with rfl | rfl <;> cases hother

theorem reaches_safe_sample :
    ∃ f, Reaches (fun routes _ => .sent routes) Regular sampleStart f ∧
      f.session.sessState = .openConfirm ∧ f.Safe := by
  have hconnect : Reaches (fun routes _ => .sent routes) Regular sampleStart
      (sampleStart.tcpConnectSuccess 1 true) := .step (.connect 1 true) .start trivial rfl
  have hdata : Reaches (fun routes _ => .sent routes) Regular sampleStart
      { sampleStart.tcpConnectSuccess 1 true with packetBuffer := sampleOpen, reading := some 1 } :=
    .step (.data 1 sampleOpen) hconnect ⟨rfl, rfl⟩ rfl
  have hround := Reaches.step .round hdata (fun _ => ⟨nofun, nofun⟩) rfl
  exact ⟨_, hround, rfl, (reaches_safe sampleStart sampleStart_fresh _ hround).1⟩

end Fsm

end Bgp
