import NetNexus.Dhcp.Packet
import NetNexus.Lease.Book

/-!
# The DHCPv4 server

`DhcpWorker` between its start and its stop: the packets it handles, the release of a lease by hand
and the pass over expired leases. The time is that of the clock in milliseconds.
-/

namespace Dhcp

open Node Leasing

/-- A message that is sent. -/
structure Response where
  packet : Packet
  msgType : MsgType
  assignedIp : String

def Response.encode (response : Response) (config : Config) : Buffer :=
  buildDhcpResponse config response.packet response.msgType response.assignedIp

/-- `leaseMap` and `ipToMac` are the two tables of the book. -/
structure Worker where
  config : Config
  book : Book (List Char) String
  pendingOffers : Table (Prod.fst : ℕ × List Char × String → ℕ)

namespace Worker

def start (config : Config) : Worker := ⟨config, .empty, .empty⟩

variable (w : Worker)

def leaseMillis : ℕ := w.config.leaseTime.toNat * 1000

/-- The addresses of the pool in their order. -/
def poolIps : List String :=
  (List.range' w.config.poolStart.toNat
    (w.config.poolEnd.toNat + 1 - w.config.poolStart.toNat)).map fun num =>
      numToIp (UInt32.ofNat num)

def allocateIp (macAddr : List Char) : Option String :=
  match w.book.leaseOf macAddr with
  | some lease => some lease.address
  | none => w.poolIps.find? fun ip => (w.book.holderOf ip).isNone

def handleDiscover (packet : Packet) : Worker × Option Response :=
  match w.allocateIp packet.macAddr with
  | none => (w, none)
  | some offeredIp =>
    ({ w with pendingOffers := w.pendingOffers.upsert (packet.xid, packet.macAddr, offeredIp) },
      some ⟨packet, .offer, offeredIp⟩)

/-- The address that a request asks for. -/
def requestedIp (packet : Packet) : Option String :=
  packet.requestedIp.or <|
    if ofBytes packet.ciaddr = 0 then none
    else some (numToIp (UInt32.ofNat (ofBytes packet.ciaddr)))

def nak (packet : Packet) : Response := ⟨packet, .nak, "0.0.0.0"⟩

/-- The client has chosen another server. -/
def isForOther (packet : Packet) : Bool :=
  packet.serverId.any (· ≠ numToIp w.config.serverIp)

def inPool (ip : String) : Bool :=
  w.config.poolStart ≤ ipToNum ip && ipToNum ip ≤ w.config.poolEnd

/-- The address belongs to another client. -/
def isTaken (ip : String) (macAddr : List Char) : Bool :=
  (w.book.holderOf ip).any (· ≠ macAddr)

def deleteOffer (packet : Packet) : Worker :=
  { w with pendingOffers := w.pendingOffers.delete packet.xid }

def handleRequest (now : ℕ) (packet : Packet) : Worker × Option Response :=
  if w.isForOther packet then (w.deleteOffer packet, none)
  else
    match requestedIp packet with
    | none => (w, some (nak packet))
    | some ip =>
      if !w.inPool ip then (w, some (nak packet))
      else if w.isTaken ip packet.macAddr then (w, some (nak packet))
      else
        -- a client that has a lease keeps its address, whichever it asks for
        let book := w.book.acknowledge packet.macAddr ip (now + w.leaseMillis)
        ({ w with book := book }.deleteOffer packet, some ⟨packet, .ack, ip⟩)

def handleRelease (packet : Packet) : Worker :=
  { w with book := w.book.release packet.macAddr }

def releaseLease (macAddr : List Char) : Worker :=
  { w with book := w.book.release macAddr }

def checkExpiredLeases (now : ℕ) : Worker := { w with book := w.book.expire now }

/-- The handler of the socket's messages. -/
def onMessage (now : ℕ) (msg : Buffer) : Worker × Option Response :=
  match parseDhcpPacket msg with
  | none => (w, none)
  | some packet =>
    if packet.op ≠ 1 then (w, none)
    else if packet.msgType = some MsgType.discover.code then w.handleDiscover packet
    else if packet.msgType = some MsgType.request.code then w.handleRequest now packet
    else if packet.msgType = some MsgType.release.code then (w.handleRelease packet, none)
    else (w, none)

end Worker

/-! ## Runs -/

/-- What happens to the server. -/
inductive Event where
  | message (msg : Buffer)
  | releaseLease (macAddr : List Char)
  | checkExpiredLeases
  | wait (millis : ℕ)

def Worker.step (w : Worker) (now : ℕ) : Event → Worker × Option Response
  | .message msg => w.onMessage now msg
  | .releaseLease macAddr => (w.releaseLease macAddr, none)
  | .checkExpiredLeases => (w.checkExpiredLeases now, none)
  | .wait _ => (w, none)

/-- A server with the clock, and with what the clients were told that they may use and have not
given back. -/
structure Run where
  worker : Worker
  now : ℕ
  acks : List (Lease (List Char) String)

/-- The clients that give back what they have. -/
def Event.released : Event → Option (List Char)
  | .message msg => do
    let packet ← parseDhcpPacket msg
    if packet.op = 1 ∧ packet.msgType = some MsgType.release.code then some packet.macAddr else none
  | .releaseLease macAddr => some macAddr
  | .checkExpiredLeases | .wait _ => none

/-- The time that passes. -/
def Event.elapsed : Event → ℕ
  | .wait millis => millis
  | _ => 0

/-- The lease that an ACK tells the client of. -/
def Response.ack? (response : Response) (expiresAt : ℕ) : Option (Lease (List Char) String) :=
  if response.msgType = .ack then some ⟨response.packet.macAddr, response.assignedIp, expiresAt⟩
  else none

namespace Run

def start (config : Config) (now : ℕ) : Run := ⟨.start config, now, []⟩

def step (run : Run) (event : Event) : Run where
  worker := (run.worker.step run.now event).1
  now := run.now + event.elapsed
  acks := (run.acks.filter fun ack => some ack.client ≠ event.released) ++
    ((run.worker.step run.now event).2.bind fun response =>
      response.ack? (run.now + run.worker.leaseMillis)).toList

def steps (run : Run) (events : List Event) : Run := events.foldl step run

end Run

end Dhcp
