import NetNexus.Rpki.Pdu

/-!
# A client session

`RpkiSession` with its send queue. A response is a task of the queue that is suspended after every
write, because a write may have to wait for the socket to drain; in the meantime more data of the
client can be processed. Errors and Cache Resets do not go through the queue but are written at
once.
-/

namespace Rpki

open Node

def headerLength : ℕ := 8

def maxRpkiPduBytes : ℕ := 16 * 1024 * 1024

def roaWriteChunkSize : ℕ := 1024 * 1024

/-- The error codes that are sent. -/
inductive ErrorCode where
  | corruptData
  | internalError
  | unsupportedProtocolVersion
  | unsupportedPduType
  | unexpectedProtocolVersion

def ErrorCode.code : ErrorCode → ℕ
  | .corruptData => 0
  | .internalError => 1
  | .unsupportedProtocolVersion => 4
  | .unsupportedPduType => 5
  | .unexpectedProtocolVersion => 8

def ProtocolVersion.ofByte (byte : UInt8) : Option ProtocolVersion :=
  if byte = 0 then some .v0 else if byte = 1 then some .v1 else if byte = 2 then some .v2 else none

/-! ## Tasks of the send queue -/

/-- `writeChunkedPduList` where it is suspended: the PDUs collected for the next chunk, the PDUs of
the current item that are still to be handled, and the items left. An item is given by the
operation that announces it. -/
structure Writing where
  chunk : List Buffer
  pdus : List Buffer
  items : List Operation

/-- A task of the queue. The first task may be under way; its constructors then hold what is left
to do after the Cache Response. -/
inductive Task where
  | resetQueryResponse
  | serialQueryResponse (operations : List Operation) (serial : UInt32)
  | serialNotify
  /-- A Reset Query response after its Cache Response: the list that is written, and the lists that
  follow with the version from which on they are sent. -/
  | snapshot (writing : Writing) (lists : List (ProtocolVersion × List Operation))
      (serial : UInt32)
  /-- A Serial Query response after its Cache Response. -/
  | delta (pdus : List Buffer) (operations : List Operation) (serial : UInt32)

/-- What becomes of the chunk while the PDUs of one item are handled. -/
inductive Filled where
  | flush (chunk : List Buffer) (pdus : List Buffer)
  | single (pdu : Buffer) (chunk : List Buffer) (pdus : List Buffer)
  | collected (chunk : List Buffer)

def chunkBytes (chunk : List Buffer) : ℕ := (chunk.map List.length).sum

/-- The inner loop of `writeChunkedPduList` up to its next write. -/
def fillChunk (chunk : List Buffer) : List Buffer → Filled
  | [] => .collected chunk
  | pdu :: pdus =>
    if pdu.length = 0 then fillChunk chunk pdus
    else if chunkBytes chunk > 0 ∧ chunkBytes chunk + pdu.length > roaWriteChunkSize then
      .flush chunk (pdu :: pdus)
    else if pdu.length > roaWriteChunkSize then .single pdu chunk pdus
    else fillChunk (chunk ++ [pdu]) pdus

namespace Encoding

variable (c : Encoding)

/-- `writeChunkedPduList` up to its next write: what is written and what is left, or `none` if the
list is finished. -/
def writeChunked (chunk pdus : List Buffer) (items : List Operation) :
    Except String (Option (List Buffer × Writing)) :=
  match fillChunk chunk pdus with
  | .flush chunk pdus => .ok (some (chunk, ⟨[], pdus, items⟩))
  | .single pdu chunk pdus => .ok (some ([pdu], ⟨chunk, pdus, items⟩))
  | .collected chunk =>
    match items with
    | [] => if chunkBytes chunk = 0 then .ok none else .ok (some (chunk, ⟨[], [], []⟩))
    | item :: items =>
      match c.buildDeltaOperationBuffers item with
      | .error e => .error e
      | .ok built => writeChunked chunk built items

/-- A Reset Query response up to its next write. Whether a list is sent at all is decided when the
one before it is finished. -/
def writeSnapshot (writing : Writing) (lists : List (ProtocolVersion × List Operation)) :
    Except String (Option (List Buffer × Writing × List (ProtocolVersion × List Operation))) :=
  match c.writeChunked writing.chunk writing.pdus writing.items with
  | .error e => .error e
  | .ok (some (written, rest)) => .ok (some (written, rest, lists))
  | .ok none =>
    match lists with
    | [] => .ok none
    | (version, items) :: lists =>
      writeSnapshot ⟨[], [], if version.byte ≤ c.protocolVersion.byte then items else []⟩ lists

/-- `writeDeltaOperations` up to its next write. -/
def writeDelta : List Buffer → List Operation →
    Except String (Option (Buffer × List Buffer × List Operation))
  | pdu :: pdus, operations => .ok (some (pdu, pdus, operations))
  | [], [] => .ok none
  | [], operation :: operations =>
    match c.buildDeltaOperationBuffers operation with
    | .error e => .error e
    | .ok built => writeDelta built operations

end Encoding

/-! ## Whole lists -/

/-- What becomes of a call of `writeBuffer`; one that fails may have passed its bytes on. -/
inductive WriteOutcome where
  | written
  | refused
  | broken

/-- `writeChunkedPduList` under way: the PDUs of the next chunk, and what the socket got, write by
write. -/
structure Sending where
  chunk : List Buffer := []
  writes : List (List Buffer) := []

namespace Sending

variable (outcome : ℕ → WriteOutcome)

/-- The outcomes are those of the first write, the second and so on. -/
def writeBuffer (s : Sending) (pdus : List Buffer) : Bool × Sending :=
  match outcome s.writes.length with
  | .written => (true, { s with writes := s.writes ++ [pdus] })
  | .refused => (false, s)
  | .broken => (false, { s with writes := s.writes ++ [pdus] })

def flush (s : Sending) : Bool × Sending :=
  if chunkBytes s.chunk = 0 then (true, s)
  else { s with chunk := [] }.writeBuffer outcome s.chunk

/-- The loop of `writeChunkedPduList`. -/
def writePdus (s : Sending) : List Buffer → Bool × Sending
  | [] => (true, s)
  | pdu :: pdus =>
    if pdu.length = 0 then writePdus s pdus
    else
      let flushed :=
        if chunkBytes s.chunk > 0 ∧ chunkBytes s.chunk + pdu.length > roaWriteChunkSize then
          s.flush outcome
        else (true, s)
      if !flushed.1 then flushed
      else if pdu.length > roaWriteChunkSize then
        let sent := flushed.2.writeBuffer outcome [pdu]
        if sent.1 then writePdus sent.2 pdus else sent
      else writePdus { flushed.2 with chunk := flushed.2.chunk ++ [pdu] } pdus

/-- `writeChunkedPduList` from a state on. `canWrite` is asked before each item. -/
def writeChunkedPduList {ι : Type} (canWrite : ι → List ι → Bool) (buildPdus : ι → List Buffer)
    (s : Sending) : List ι → Bool × Sending
  | [] => s.flush outcome
  | item :: items =>
    if canWrite item items then
      let sent := s.writePdus outcome (buildPdus item)
      if sent.1 then writeChunkedPduList canWrite buildPdus sent.2 items else sent
    else (false, s)

end Sending

/-! ## The session -/

/-- A client session with its send queue. -/
structure Session where
  ipaddr : Ip.Ipaddr
  aspaFormat : AspaFormat
  /-- `getMaxSupportedVersion()`. -/
  maxSupportedVersion : ProtocolVersion
  randomSessionId : ℕ
  protocolVersion : ProtocolVersion
  sessionId : Option ℕ
  messageBuffer : Buffer
  sendQueue : List Task
  /-- `closing` or `closed`, or the socket is gone. -/
  closing : Bool
  /-- The PDUs written to the socket before the session is closed. -/
  written : List Buffer
  /-- The Error Report with which the session closes itself. -/
  lastWords : Option Buffer

namespace Session

variable (s : Session)

def new (ipaddr : Ip.Ipaddr) (aspaFormat : AspaFormat) (maxSupportedVersion : ProtocolVersion)
    (randomSessionId : ℕ) : Session where
  ipaddr
  aspaFormat
  maxSupportedVersion
  randomSessionId
  protocolVersion := .v0
  sessionId := none
  messageBuffer := []
  sendQueue := []
  closing := false
  written := []
  lastWords := none

def encoding : Encoding where
  ipaddr := s.ipaddr
  protocolVersion := s.protocolVersion
  aspaFormat := s.aspaFormat
  sessionId := s.sessionId.getD s.randomSessionId

/-- `sendMessage`, which writes at once. -/
def sendMessage (buffer : Buffer) : Session :=
  if s.closing then s else { s with written := s.written ++ [buffer] }

def enqueueSend (task : Task) : Session :=
  if s.closing then s else { s with sendQueue := s.sendQueue ++ [task] }

def closeSession : Session := { s with closing := true, messageBuffer := [] }

def sendError (errorCode : ErrorCode) : Session :=
  s.sendMessage (s.encoding.buildErrorReportPdu errorCode.code)

/-- `sendError` with `closeAfterSend`. -/
def sendErrorAndClose (errorCode : ErrorCode) (protocolVersion : ProtocolVersion) : Session :=
  if s.closing then s.closeSession
  else
    { s.closeSession with
      lastWords := some ({ s.encoding with protocolVersion }.buildErrorReportPdu errorCode.code) }

def sendCacheReset : Session := s.sendMessage s.encoding.buildCacheResetPdu

def sendSerialNotify : Session :=
  match s.sessionId with
  | none => s
  | some _ => s.enqueueSend .serialNotify

/-! ## Messages of the client -/

def handleResetQuery (version : UInt8) : Session :=
  if version > s.maxSupportedVersion.byte then
    s.sendErrorAndClose .unsupportedProtocolVersion s.maxSupportedVersion
  else
    { s with protocolVersion := (ProtocolVersion.ofByte version).getD s.maxSupportedVersion
      }.enqueueSend .resetQueryResponse

def handleSerialQuery (worker : Worker) (version : UInt8) (message : Buffer) : Session :=
  if version ≠ s.protocolVersion.byte then s.sendError .unexpectedProtocolVersion
  else
    match readUInt16BE message 2, readUInt32BE message headerLength with
    | some sessionId, some serial =>
      if s.sessionId ≠ some sessionId then s.sendError .corruptData
      else
        match worker.getDeltaOperationsSince (UInt32.ofNat serial) with
        | some operations => s.enqueueSend (.serialQueryResponse operations worker.cacheSerial)
        | none =>
          if UInt32.ofNat serial ≠ worker.cacheSerial then s.sendCacheReset
          else s.enqueueSend (.serialQueryResponse [] worker.cacheSerial)
    | _, _ => s.sendError .internalError

/-- `handleErrorReport` only logs, but it throws if the message is too short. -/
def handleErrorReport (message : Buffer) : Session :=
  match readUInt32BE message headerLength with
  | some _ => s
  | none => s.sendError .internalError

def processMessage (worker : Worker) (message : Buffer) : Session :=
  let version := message.getD 0 0
  let type := message.getD 1 0
  if type = 1 then s.handleSerialQuery worker version message
  else if type = 2 then s.handleResetQuery version
  else if type = 10 then s.handleErrorReport message
  else s.sendError .unsupportedPduType

/-- The loop of `processBufferedMessages`: the messages that are handed to `processMessage`, each
with the session as it is then, and the session in the end. Every round takes a message of at
least eight bytes, so the length of the buffer bounds the rounds. -/
def processBufferedMessages (worker : Worker) : ℕ → Session → List (Session × Buffer) × Session
  | 0, s => ([], s)
  | fuel + 1, s =>
    if s.messageBuffer.length < headerLength then ([], s)
    else
      let length := ofBytes ((s.messageBuffer.drop 4).take 4)
      if length < headerLength ∨ length > maxRpkiPduBytes then ([], s.closeSession)
      else if s.messageBuffer.length < length then ([], s)
      else
        let message := s.messageBuffer.take length
        let s' := { s with messageBuffer := s.messageBuffer.drop length }
        let (handled, final) :=
          processBufferedMessages worker fuel (s'.processMessage worker message)
        ((s', message) :: handled, final)

/-- `recvMsg`, with the messages that it hands to `processMessage`. -/
def recvMsg (worker : Worker) (buffer : Buffer) : List (Session × Buffer) × Session :=
  if s.closing then ([], s)
  else if s.messageBuffer.length + buffer.length > maxRpkiPduBytes then ([], s.closeSession)
  else
    processBufferedMessages worker (s.messageBuffer.length + buffer.length)
      { s with messageBuffer := s.messageBuffer ++ buffer }

/-! ## The send queue -/

/-- All records, by the version that they need. -/
def snapshotLists (worker : Worker) : List Operation × List (ProtocolVersion × List Operation) :=
  (worker.store.roas.rows.map (.roa .announce),
    [(.v1, worker.routerKeys.rows.map (.routerKey .announce)),
      (.v2, worker.store.aspas.rows.map (.aspa .announce))])

/-- The first write of a response, which fixes the session id. -/
def writeCacheResponse (task : Task) (rest : List Task) : Session :=
  { s with
    sessionId := some s.encoding.sessionId
    written := s.written ++ [s.encoding.buildCacheResponsePdu]
    sendQueue := task :: rest }

/-- The last write of a task. -/
def writeAndFinish (pdu : Buffer) (rest : List Task) : Session :=
  { s with written := s.written ++ [pdu], sendQueue := rest }

/-- The first task goes on up to its next write. `createDataSnapshot` throws if no snapshot is to be
had. -/
def resume (worker : Worker) (snapshotAvailable : Bool) : Session :=
  if s.closing then { s with sendQueue := s.sendQueue.tail }
  else
    match s.sendQueue with
    | [] => s
    | .resetQueryResponse :: rest =>
      if snapshotAvailable then
        let (roas, lists) := snapshotLists worker
        s.writeCacheResponse (.snapshot ⟨[], [], roas⟩ lists worker.store.cacheSerial) rest
      else s.writeAndFinish (s.encoding.buildErrorReportPdu ErrorCode.internalError.code) rest
    | .serialQueryResponse operations serial :: rest =>
      s.writeCacheResponse (.delta [] operations serial) rest
    | .serialNotify :: rest =>
      s.writeAndFinish (s.encoding.buildSerialNotifyPdu worker.cacheSerial) rest
    | .snapshot writing lists serial :: rest =>
      match s.encoding.writeSnapshot writing lists with
      | .error _ =>
        s.writeAndFinish (s.encoding.buildErrorReportPdu ErrorCode.internalError.code) rest
      | .ok (some (pdus, writing, lists)) =>
        { s with
          written := s.written ++ pdus
          sendQueue := .snapshot writing lists serial :: rest }
      | .ok none => s.writeAndFinish (s.encoding.buildEndOfDataPdu serial) rest
    | .delta pdus operations serial :: rest =>
      match s.encoding.writeDelta pdus operations with
      | .error _ => { s with sendQueue := rest }
      | .ok (some (pdu, pdus, operations)) =>
        { s with
          written := s.written ++ [pdu]
          sendQueue := .delta pdus operations serial :: rest }
      | .ok none => s.writeAndFinish (s.encoding.buildEndOfDataPdu serial) rest

/-! ## Runs -/

/-- What can happen to a session. The worker is as it is at that moment. -/
inductive Event where
  | data (worker : Worker) (buffer : Buffer)
  | resume (worker : Worker) (snapshotAvailable : Bool)
  | serialNotify
  | close

def step : Event → Session
  | .data worker buffer => (s.recvMsg worker buffer).2
  | .resume worker snapshotAvailable => s.resume worker snapshotAvailable
  | .serialNotify => s.sendSerialNotify
  | .close => s.closeSession

def run (s : Session) (events : List Event) : Session := events.foldl step s

end Session

end Rpki
