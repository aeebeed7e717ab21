import NetNexus.Bgp.Session

/-!
# The life of a BGP session

The connections of a session: `tcpConnectSuccess`, `handleSocketClosed`, `handleHoldTimerExpired`,
`resetSession` and `clearSession` around the loop of `handleBgpPacket`. Data of any socket with the
address of the peer goes to the session, also of one that a later connection has replaced. The hold
timer runs only while there is a socket.
-/

namespace Bgp

open Node (Buffer)

variable {ρ : Type*}

namespace Session

def roleInvalid : ℕ := 255

def forgetOpen (s : Session ρ) : Session ρ :=
  { s with
    peerCapFlags := 0
    peerAddrFamilyFlags := 0
    peerRole := roleInvalid
    peerAddPathMap := .empty
    peerExtendedNextHopFamilies := [] }

end Session

/-- A session with its connection and what it has received. -/
structure Fsm (ρ : Type*) where
  session : Session ρ
  /-- The socket of the last connection. It is `this.socket` as long as the session has one. -/
  connection : ℕ
  packetBuffer : Buffer
  /-- The socket whose data the loop of `handleBgpPacket` is going through. -/
  reading : Option ℕ
  /-- The messages since the last connection, each with the socket whose data completed it. -/
  received : List (ℕ × Session.Received)

namespace Fsm

variable (f : Fsm ρ)

def tcpConnectSuccess (socket : ℕ) (openSent : Bool) : Fsm ρ :=
  let session := { f.session.forgetOpen with socket := true }.changeSessionFsmState .connect
  { session := if openSent then session.changeSessionFsmState .openSent else session
    connection := socket
    packetBuffer := []
    reading := none
    received := [] }

def handleSocketClosed (socket : ℕ) : Fsm ρ :=
  if f.session.socket = true ∧ f.connection = socket then
    { f with
      session := { f.session with socket := false }.changeSessionFsmState .idle
      packetBuffer := [] }
  else f

def handleHoldTimerExpired : Fsm ρ :=
  if f.session.socket = true then
    { f with
      session := { f.session.changeSessionFsmState .idle with socket := false }
      packetBuffer := [] }
  else f

def resetSession (f : Fsm ρ) : Fsm ρ := { f with session := f.session.resetSession }

def clearSession : Fsm ρ :=
  { f with session := f.session.forgetOpen, packetBuffer := [] }

def message : Session.Received :=
  ⟨typeField f.packetBuffer, f.packetBuffer.take (lengthField f.packetBuffer)⟩

variable (sender : RouteSender ρ) (f : Fsm ρ)

/-- One round of the loop. A handler that throws ends it with the message still in the buffer. -/
def round (socket : ℕ) : Fsm ρ :=
  match (Session.receive sender).next f.session f.packetBuffer with
  | .wait => { f with reading := none }
  | .take n session _ =>
    { f with
      session
      packetBuffer := f.packetBuffer.drop n
      received := f.received ++ [(socket, f.message)] }
  | .fail session _ =>
    { f with session, reading := none, received := f.received ++ [(socket, f.message)] }

/-- What happens to a session. -/
inductive Event where
  /-- A connection is accepted; the flag tells whether the OPEN could be built and written. -/
  | connect (socket : ℕ) (openSent : Bool)
  | data (socket : ℕ) (bytes : Buffer)
  /-- The loop goes on. -/
  | round
  | close (socket : ℕ)
  | holdTimer
  | reset
  | clear

/-- An event, if it can happen: as long as the loop runs nothing else does. -/
def step (event : Event) : Option (Fsm ρ) :=
  match f.reading, event with
  | some socket, .round => some (f.round sender socket)
  | none, .connect socket openSent => some (f.tcpConnectSuccess socket openSent)
  | none, .data socket bytes =>
    some { f with packetBuffer := f.packetBuffer ++ bytes, reading := some socket }
  | none, .close socket => some (f.handleSocketClosed socket)
  | none, .holdTimer => some f.handleHoldTimerExpired
  | none, .reset => some f.resetSession
  | none, .clear => some f.clearSession
  | _, _ => none

def run (events : List Event) : Option (Fsm ρ) := events.foldlM (step sender) f

/-- The states that are reached from a state by events that are allowed when they happen. -/
inductive Reaches (allowed : Fsm ρ → Event → Prop) (start : Fsm ρ) : Fsm ρ → Prop where
  | start : Reaches allowed start start
  | step {f g : Fsm ρ} (event : Event) (before : Reaches allowed start f) (ok : allowed f event)
      (next : f.step sender event = some g) : Reaches allowed start g

/-- A session that has not been connected yet. -/
structure Fresh (f : Fsm ρ) : Prop where
  socket : f.session.socket = false
  sessState : f.session.sessState = .idle
  peers : ∀ peer ∈ f.session.peers, peer.2 = .idle
  reading : f.reading = none

/-! ## Safety -/

/-- `parseBgpPacket` reads the message as an OPEN. -/
def IsOpen (m : Session.Received) : Prop :=
  PacketType.ofCode m.type = some .openMessage ∧ ∃ parsed, receivedOpen m.packet = .ok parsed

/-- `parseBgpPacket` reads the message as a KEEPALIVE. -/
def IsKeepAlive (m : Session.Received) : Prop :=
  PacketType.ofCode m.type = some .keepalive ∧ parsePacketHeader m.packet = .ok .keepalive

/-- An OPEN was received on the connection. -/
def Opened : Prop := ∃ m, (f.connection, m) ∈ f.received ∧ IsOpen m

/-- An OPEN and afterwards a KEEPALIVE were received on the connection. -/
def Confirmed : Prop :=
  ∃ before after opening keepAlive, f.received = before ++ (f.connection, keepAlive) :: after ∧
    (f.connection, opening) ∈ before ∧ IsOpen opening ∧ IsKeepAlive keepAlive

/-- What holds of a session at any time. -/
structure Safe (f : Fsm ρ) : Prop where
  live : f.session.sessState ≠ .idle → f.session.socket = true
  confirmed : f.session.sessState = .established → f.Confirmed
  peers : ∀ peer ∈ f.session.peers, peer.2 = .established → f.session.sessState = .established

/-- The session and each peer keep their states or go idle. -/
def Subsides (s s' : Session ρ) : Prop :=
  (s'.sessState = s.sessState ∨ s'.sessState = .idle) ∧
    List.Forall₂ (fun p q => q.1 = p.1 ∧ (q.2 = p.2 ∨ q.2 = PeerState.idle)) s.peers s'.peers

/-- A whole message is buffered. -/
def Complete : Prop :=
  headLen ≤ f.packetBuffer.length ∧ lengthField f.packetBuffer ≤ f.packetBuffer.length

/-- Data comes from the connection of the session, no NOTIFICATION is received before the session is
idle, and what is received as KEEPALIVE while an OPEN is to be confirmed is well formed. -/
def Regular : Event → Prop
  | .data socket _ => f.session.socket = true ∧ socket = f.connection
  | .round => f.Complete →
    (PacketType.ofCode f.message.type = some .notification → f.session.sessState = .idle) ∧
    (PacketType.ofCode f.message.type = some .keepalive → f.session.sessState = .openConfirm →
      IsKeepAlive f.message)
  | _ => True

end Fsm

end Bgp
