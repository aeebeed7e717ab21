import NetNexus.TcpAuth.Header

/-!
# The hand-off of a forwarded connection

`TcpAuthForwardingServer` with one socket of its internal server: the header is gathered from the
data events and checked, and the socket is given to the handler with what came behind the header.
-/

namespace TcpAuth

open Node Ip

/-- How connections are authenticated. -/
inductive AuthType where
  | tcpAo
  | tcpMd5
  deriving DecidableEq

/-- `authLabel` -/
def AuthType.label : AuthType → String
  | .tcpAo => "TCP-AO"
  | .tcpMd5 => "TCP MD5"

/-- A profile, as far as it is looked at. -/
structure Profile where
  id : Option String
  name : Option String
  peer : String

/-- The server with its connections. -/
structure Server where
  lib : Ipaddr
  authType : AuthType
  listenPort : ℕ
  profiles : List Profile
  forwardCapability : Buffer
  maxPendingHeaders : ℕ

/-- What the handler is told of a peer. -/
structure Peer where
  metadata : Metadata
  authentication : AuthType
  profileId : Option String
  profileName : Option String
  profilePeer : String

namespace Server

variable (srv : Server)

/-- The test by which `validatePeerMetadata` looks for the profile. -/
def covers (remote : Address) (profile : Profile) : Bool :=
  match srv.lib.parseCIDR profile.peer with
  | none => false
  | some (network, prefixLength) =>
    network.kind = remote.kind && srv.lib.matchNetwork remote network prefixLength

def validatePeerMetadata (metadata : Metadata) : Except String Peer :=
  if metadata.localPort ≠ srv.listenPort then
    .error (srv.authType.label ++ "转发头本地端口与服务配置不匹配")
  else
    match srv.lib.parse metadata.remoteAddress with
    | none => .error (srv.authType.label ++ "转发头远端地址无效")
    | some remote =>
      match srv.profiles.find? (srv.covers remote) with
      | none => .error (srv.authType.label ++ "转发头远端地址不属于已认证Profile")
      | some profile => .ok
        { metadata, authentication := srv.authType, profileId := profile.id,
          profileName := profile.name, profilePeer := profile.peer }

end Server

/-- A socket of the internal server. The handler is called with a peer and the data behind the
header, and sees the later data events. -/
structure Socket where
  header : Buffer := []
  finished : Bool := false
  closed : Bool := false
  calls : List (Peer × Buffer) := []
  later : Buffer := []

/-- What happens to a socket or to the server. -/
inductive Event where
  | data (chunk : Buffer)
  /-- `end`, `close` or `error`. -/
  | ended
  | timeout
  | stop

namespace Socket

def rejectHeader (s : Socket) : Socket :=
  if s.finished then s else { s with finished := true, header := [], closed := true }

/-- `onData`. The handler keeps the connection, or it returns `false` or throws. -/
def onData (srv : Server) (keeps : Peer → Buffer → Bool) (s : Socket) (chunk : Buffer) : Socket :=
  let copyLength := min (headerBytes - s.header.length) chunk.length
  let header := s.header ++ chunk.take copyLength
  if header.length < headerBytes then { s with header }
  else
    match decodeTcpAuthForwardHeader srv.lib header srv.forwardCapability >>=
      srv.validatePeerMetadata with
    | .error _ => { s with header }.rejectHeader
    | .ok peer =>
      let initialData := chunk.drop copyLength
      { s with finished := true, header := [], calls := s.calls ++ [(peer, initialData)],
               closed := !keeps peer initialData }

/-- An event. A closed socket has no more data, the listeners of the header are removed with the
timer, and stopping closes the sockets that wait for their header. -/
def step (srv : Server) (keeps : Peer → Buffer → Bool) (s : Socket) : Event → Socket
  | .data chunk =>
    if s.closed then s
    else if s.finished then { s with later := s.later ++ chunk }
    else s.onData srv keeps chunk
  | .ended => { s.rejectHeader with closed := true }
  | .timeout => s.rejectHeader
  | .stop => s.rejectHeader

def run (srv : Server) (keeps : Peer → Buffer → Bool) (s : Socket) (events : List Event) : Socket :=
  events.foldl (step srv keeps) s

/-- What the handler reads. -/
def read (s : Socket) : Buffer := s.calls.flatMap Prod.snd ++ s.later

end Socket

/-- A new connection is not closed at once. -/
def Server.Takes (srv : Server) (stopping : Bool) (pending : ℕ) : Prop :=
  stopping = false ∧ srv.forwardCapability.length = capabilityBytes ∧
    pending < srv.maxPendingHeaders

instance (srv : Server) (stopping : Bool) (pending : ℕ) : Decidable (srv.Takes stopping pending) :=
  inferInstanceAs (Decidable (_ ∧ _))

/-- `acceptInternalSocket`, with the number of sockets that wait for their header. -/
def Server.acceptInternalSocket (srv : Server) (stopping : Bool) (pending : ℕ) : Socket :=
  if srv.Takes stopping pending then {} else { finished := true, closed := true }

/-! ## The stream -/

/-- The bytes that arrive: until the socket ends, and until the timeout or a stop of the server if
there are too few for a header. -/
def arrived : Buffer → List Event → Buffer
  | bytes, [] => bytes
  | bytes, .data chunk :: rest => arrived (bytes ++ chunk) rest
  | bytes, .ended :: _ => bytes
  | bytes, .timeout :: rest | bytes, .stop :: rest =>
    if bytes.length < headerBytes then bytes else arrived bytes rest

/-- The peer of the profile is a network of the same kind that the address belongs to. -/
def Server.Knows (srv : Server) (remote : Address) (profile : Profile) : Prop :=
  ∃ network mask, srv.lib.parseCIDR profile.peer = some (network, mask) ∧
    network.kind = remote.kind ∧ remote.inNetwork network mask

/-- The header names ends that the server is meant for, and carries its capability. -/
def Server.Admits (srv : Server) (header : Buffer) : Prop :=
  ∃ e : Endpoints, header = e.header srv.forwardCapability ∧ e.localPort = srv.listenPort ∧
    ∃ profile ∈ srv.profiles, srv.Knows e.remote profile

def Event.ends : Event → Bool
  | .data _ => false
  | _ => true

/-- The socket on which the stream arrived was given to the handler with what is behind the header,
once and if the server admits the header. Otherwise nothing was read, and the socket is closed when
it is over or there are enough bytes for a header. -/
structure HandsOver (srv : Server) (keeps : Peer → Buffer → Bool) (stream : Buffer) (ended : Bool)
    (s : Socket) : Prop where
  once : s.calls.length ≤ 1
  called_iff : s.calls ≠ [] ↔ srv.Admits (stream.take headerBytes)
  read_isPrefix : s.read <+: stream.drop headerBytes
  read_eq : ∀ call ∈ s.calls, keeps call.1 call.2 → s.read = stream.drop headerBytes
  untouched : s.calls = [] → s.read = []
  closed : s.calls = [] → ended ∨ headerBytes ≤ stream.length → s.closed

end TcpAuth
