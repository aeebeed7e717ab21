import NetNexus.Tftp.Session

/-!
# Transfers over a network

What a receiver of blocks has, an upload with the packets that arrive at the session, and a download
over a network that loses, doubles and delays packets.
-/

namespace Tftp

open Node Session

def Output.file? : Output → Option Buffer
  | .writeFile content => some content
  | .send _ => none

def Output.packet? : Output → Option Buffer
  | .send packet => some packet
  | .writeFile _ => none

/-! ## A receiver of blocks -/

/-- The blocks that have been received, in order. -/
structure Receiver where
  blocks : List Buffer := []
  finished : Bool := false
  deriving DecidableEq

/-- A block is taken if its number is the next one, until one is shorter than the block size. -/
def Receiver.receive (blockSize : ℕ) (r : Receiver) (block : ℕ) (data : Buffer) : Receiver :=
  if r.finished = false ∧ block = (r.blocks.length + 1) % 2 ^ 16 then
    { blocks := r.blocks ++ [data], finished := data.length < blockSize }
  else r

def Receiver.last (r : Receiver) : ℕ := r.blocks.length % 2 ^ 16

/-! ## Uploads -/

/-- A session with what a receiver has of the data that arrived, and whether a file has been
written. -/
structure Upload where
  session : Session
  receiver : Receiver := {}
  stored : Bool := false

namespace Upload

def start (maxRetries : ℕ) (options : Options) : Upload where
  session := { kind := .write, maxRetries := maxRetries : Session }.beginWrite options

/-- The event is the end of a write that succeeded. -/
def stores (s : Session) : Event → Bool
  | .done i none => s.pending[i]?.any fun
    | .written _ _ => true
    | _ => false
  | _ => false

def step (u : Upload) (event : Event) : Upload where
  session := u.session.step event
  receiver := match event with
    | .message msg =>
      match blockOf .data msg with
      | some block => u.receiver.receive u.session.blockSize block (msg.drop 4)
      | none => u.receiver
    | _ => u.receiver
  stored := u.stored || stores u.session event

def steps (u : Upload) (events : List Event) : Upload := events.foldl step u

/-- The files that were written. -/
def writes (s : Session) : List Buffer := s.log.filterMap Output.file?

/-- The event does no harm: once the last block has arrived no data with the number behind it
arrives, and none with its own number before the file has been written. -/
def Calm (u : Upload) : Event → Prop
  | .message msg => u.session.isOpen = true → u.receiver.finished = true →
    blockOf .data msg ≠ some ((u.receiver.last + 1) % 2 ^ 16) ∧
      (blockOf .data msg = some u.receiver.last → u.stored = true)
  | _ => True

/-- Every event of the run is calm when it happens. -/
def CalmAlong : Upload → List Event → Prop
  | _, [] => True
  | u, event :: events => u.Calm event ∧ CalmAlong (u.step event) events

end Upload

/-! ## Downloads -/

/-- What a client does about data that is neither new nor the block that it received last: whether
it acknowledges the number. -/
abbrev Policy := List Buffer → ℕ → Bool

/-- The client of a download. It acknowledges the block that it has just received, takes each new
one once, and answers the acknowledgement of its options. -/
def Receiver.answer (policy : Policy) (blockSize : ℕ) (r : Receiver) (packet : Buffer) :
    Receiver × Option Buffer :=
  match blockOf .data packet with
  | some block =>
    let next := r.receive blockSize block (packet.drop 4)
    (next, if block = next.last ∨ policy r.blocks block then some (buildAck block) else none)
  | none => (r, if readUInt16BE packet 0 = some Opcode.oack.code then some (buildAck 0) else none)

/-- A session and its client, with all packets that the client has sent. -/
structure Download where
  session : Session
  client : Receiver := {}
  answers : List Buffer := []

/-- A packet that was sent at some time arrives. -/
inductive Delivery where
  | toClient (i : ℕ)
  | toSession (i : ℕ)

/-- A packet of the session is on its way. Packets of any time arrive before. Then the packet gets
through, and so does the answer to it after further ones, or the timer fires. -/
structure Round where
  noise : List Delivery
  through : Option (List Delivery)

namespace Download

def start (maxRetries : ℕ) (options : Options) (file : Buffer) : Download where
  session := { kind := .read, maxRetries := maxRetries : Session }.onRead options (.ok file)

/-- The packets that the session has sent. -/
def packets (d : Download) : List Buffer := d.session.log.filterMap Output.packet?

variable (policy : Policy) (d : Download)

/-- A packet reaches the client. -/
def toClient (packet : Buffer) : Download :=
  let (client, answer) := d.client.answer policy d.session.blockSize packet
  { d with client := client, answers := d.answers ++ answer.toList }

/-- A packet reaches the session. -/
def toSession (d : Download) (packet : Buffer) : Download :=
  { d with session := d.session.step (.message packet) }

def deliver : Delivery → Download
  | .toClient i => (d.packets[i]?).elim d (d.toClient policy)
  | .toSession i => (d.answers[i]?).elim d d.toSession

def delivers (deliveries : List Delivery) : Download :=
  deliveries.foldl (deliver policy) d

/-- The packet that was sent last gets through, and so does the answer to it. -/
def exchange (between : List Delivery) : Download :=
  match d.session.lastSent with
  | none => d
  | some packet =>
    let answer := (d.client.answer policy d.session.blockSize packet).2
    let d := (d.toClient policy packet).delivers policy between
    answer.elim d d.toSession

def round (r : Round) : Download :=
  let d := d.delivers policy r.noise
  match r.through with
  | some between => d.exchange policy between
  | none => { d with session := d.session.step .timeout }

def rounds (rs : List Round) : Download :=
  rs.foldl (round policy) d

/-- No more than `limit` rounds are lost one after the other. If `joined`, the rounds that are lost
before and after the first one that gets through count together. -/
def Fair (limit : ℕ) : Bool → ℕ → List Round → Prop
  | _, _, [] => True
  | joined, lost, r :: rs =>
    if r.through.isSome then Fair limit false (if joined then lost else 0) rs
    else lost < limit ∧ Fair limit joined (lost + 1) rs

/-- The number of blocks of a file, of which the last one is short. -/
def blockCount (s : Session) (file : Buffer) : ℕ := file.length / s.blockSize + 1

/-- The session has completed, the client has the file, and exactly its last block is short. -/
structure Delivered (d : Download) (file : Buffer) : Prop where
  completed : d.session.status = .completed
  content : d.client.blocks.flatten = file
  short : ∀ i data, d.client.blocks[i]? = some data →
    (data.length < d.session.blockSize ↔ i + 1 = d.client.blocks.length)

end Download

end Tftp
