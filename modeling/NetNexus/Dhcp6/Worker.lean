import NetNexus.Dhcp6.Packet
import NetNexus.Lease.Book

/-!
# The DHCPv6 server

`Dhcp6Worker` between its start and its stop. A step in which the search for an address does not
end has no result.
-/

namespace Dhcp6

open Node Leasing

/-- `leaseMap` and `ipToClient` are the two tables of the book. -/
structure Worker where
  config : Config
  serverDuid : Buffer
  poolStartBuf : Buffer
  poolEndBuf : Buffer
  book : Book (List Char) (List Char)

namespace Worker

/-- `startDhcp6`, which fails if the pool is not given by addresses. -/
def startDhcp6 (config : Config) (serverDuid : Buffer) : Option Worker := do
  let poolStartBuf ← ipv6ToBuffer config.poolStart
  let poolEndBuf ← ipv6ToBuffer config.poolEnd
  return ⟨config, serverDuid, poolStartBuf, poolEndBuf, .empty⟩

variable (w : Worker)

def leaseMillis : ℕ := w.config.validLifetime.toNat * 1000

/-- The loop of `allocateIp` from the address `cur` on: `none` if it has not ended within the
rounds. -/
def searchIp (w : Worker) : ℕ → Buffer → Option (Option (List Char))
  | 0, _ => none
  | rounds + 1, cur =>
    if compareBuffers cur w.poolEndBuf = .gt then some none
    else if (w.book.holderOf (bufferToIpv6 cur)).isNone then some (some (bufferToIpv6 cur))
    else w.searchIp rounds (incrementIpv6 cur)

/-- `allocateIp`. A search that takes more rounds than there are addresses never ends. -/
def allocateIp (clientDuid : List Char) : Option (Option (List Char)) :=
  match w.book.leaseOf clientDuid with
  | some lease => some (some lease.address)
  | none => w.searchIp (2 ^ 128) w.poolStartBuf

def handleSolicit (packet : Packet) : Option (Worker × Option Response) :=
  match packet.clientDuid, packet.iaid with
  | some clientDuid, some iaid =>
    (w.allocateIp clientDuid).map fun assignedIp =>
      (w, assignedIp.map fun ip => ⟨.advertise, packet.txId, clientDuid, iaid, .address ip⟩)
  | _, _ => some (w, none)

/-- The client has chosen another server. -/
def isForOther (packet : Packet) : Bool :=
  packet.serverDuid.any (· ≠ hexEncode w.serverDuid)

def handleRequest (now : ℕ) (packet : Packet) : Option (Worker × Option Response) :=
  match packet.clientDuid, packet.iaid with
  | some clientDuid, some iaid =>
    if w.isForOther packet then some (w, none)
    else
      -- whatever address the client asks for is taken as it is
      (match packet.requestedIp with
        | some ip => some (some ip)
        | none => w.allocateIp clientDuid).map fun
        | none => (w, some ⟨.reply, packet.txId, clientDuid, iaid, .noAddrsAvail⟩)
        | some ip =>
          ({ w with book := w.book.acknowledge clientDuid ip (now + w.leaseMillis) },
            some ⟨.reply, packet.txId, clientDuid, iaid, .address ip⟩)
  | _, _ => some (w, none)

def releaseLease (duid : List Char) : Worker :=
  { w with book := w.book.release duid }

def handleRelease (packet : Packet) : Worker × Option Response :=
  match packet.clientDuid with
  | some clientDuid =>
    (w.releaseLease clientDuid,
      packet.iaid.map fun iaid => ⟨.reply, packet.txId, clientDuid, iaid, .released⟩)
  | none => (w, none)

def checkExpiredLeases (now : ℕ) : Worker := { w with book := w.book.expire now }

/-- The messages that `handleRequest` answers. -/
def isRequest (packet : Packet) : Bool :=
  [MsgType.request, .renew, .rebind, .confirm].any fun msgType => packet.msgType = msgType.code

def onMessage (now : ℕ) (msg : Buffer) : Option (Worker × Option Response) :=
  match parseDhcp6Packet msg with
  | none => some (w, none)
  | some packet =>
    if packet.msgType = MsgType.solicit.code then w.handleSolicit packet
    else if isRequest packet then w.handleRequest now packet
    else if packet.msgType = MsgType.release.code then some (w.handleRelease packet)
    else some (w, none)

end Worker

/-! ## Runs -/

/-- What happens to the server. -/
inductive Event where
  | message (msg : Buffer)
  | releaseLease (duid : List Char)
  | checkExpiredLeases
  | wait (millis : ℕ)

def Worker.step (w : Worker) (now : ℕ) : Event → Option (Worker × Option Response)
  | .message msg => w.onMessage now msg
  | .releaseLease duid => some (w.releaseLease duid, none)
  | .checkExpiredLeases => some (w.checkExpiredLeases now, none)
  | .wait _ => some (w, none)

/-- A server with the clock, and with what the clients were told that they may use and have not
given back. -/
structure Run where
  worker : Worker
  now : ℕ
  acks : List (Lease (List Char) (List Char))

/-- The clients that give back what they have. -/
def Event.released : Event → Option (List Char)
  | .message msg => do
    let packet ← parseDhcp6Packet msg
    if packet.msgType = MsgType.release.code then packet.clientDuid else none
  | .releaseLease duid => some duid
  | .checkExpiredLeases | .wait _ => none

def Event.elapsed : Event → ℕ
  | .wait millis => millis
  | _ => 0

/-- The address that a client is told to be its own. -/
def Response.ack? (response : Response) (expiresAt : ℕ) :
    Option (Lease (List Char) (List Char)) :=
  match response.msgType, response.body with
  | .reply, .address ip => some ⟨response.clientDuid, ip, expiresAt⟩
  | _, _ => none

namespace Run

def step (run : Run) (event : Event) : Option Run :=
  (run.worker.step run.now event).map fun (worker, response) =>
    { worker := worker
      now := run.now + event.elapsed
      acks := (run.acks.filter fun ack => some ack.client ≠ event.released) ++
        (response.bind fun response =>
          response.ack? (run.now + run.worker.leaseMillis)).toList }

def steps (run : Run) (events : List Event) : Option Run := events.foldlM step run

end Run

end Dhcp6
