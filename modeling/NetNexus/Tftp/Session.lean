import NetNexus.Node.Bytes

/-!
# A TFTP transfer

`TftpSession` from the moment at which its socket is bound. The session keeps the packets that it
sends and the files that it writes in `log`, and the operations whose callbacks have not been called
yet in `pending`. Messages are those of the client; the ones of other ports never reach the
handlers.
-/

namespace Tftp

open Node

/-! ## Packets -/

/-- `TFTP_OPCODES`, those of a session. -/
inductive Opcode where
  | data
  | ack
  | error
  | oack
  deriving DecidableEq

def Opcode.code : Opcode → ℕ
  | .data => 3
  | .ack => 4
  | .error => 5
  | .oack => 6

/-- `TFTP_ERROR_CODES`, those of a session. -/
inductive ErrorCode where
  | fileNotFound
  | accessViolation
  | diskFull
  deriving DecidableEq

def ErrorCode.code : ErrorCode → ℕ
  | .fileNotFound => 1
  | .accessViolation => 2
  | .diskFull => 3

def buildData (blockNumber : ℕ) (data : Buffer) : Buffer :=
  uint16be Opcode.data.code ++ uint16be (blockNumber % 2 ^ 16) ++ data

def buildAck (blockNumber : ℕ) : Buffer :=
  uint16be Opcode.ack.code ++ uint16be (blockNumber % 2 ^ 16)

def buildError (code : ErrorCode) (message : String) : Buffer :=
  uint16be Opcode.error.code ++ uint16be code.code ++ asciiEncode message.toList ++ [0]

def buildOack (options : List (String × String)) : Buffer :=
  uint16be Opcode.oack.code ++ options.flatMap fun (key, value) =>
    asciiEncode key.toList ++ [0] ++ asciiEncode value.toList ++ [0]

/-! ## The session -/

/-- What a request asks for. -/
inductive Kind where
  | read
  | write
  deriving DecidableEq

/-- The status of a session. -/
inductive Status where
  | transferring
  | completed
  | error
  deriving DecidableEq

/-- What a session does to the world. -/
inductive Output where
  | send (packet : Buffer)
  | writeFile (content : Buffer)
  deriving DecidableEq

/-- What is called when an operation ends: the file has been written, the last acknowledgement or an
error has been sent. -/
inductive Callback where
  | written (content : Buffer) (lastBlock : ℕ)
  | complete
  | fail
  deriving DecidableEq

/-- A transfer, with the packets and files it has written. -/
structure Session where
  kind : Kind
  maxRetries : ℕ
  blockSize : ℕ := 512
  fileBuffer : Buffer := []
  writeChunks : List Buffer := []
  totalSize : ℕ := 0
  blockNumber : ℕ := 0
  finalBlock : ℕ := 0
  expectOackAck : Bool := false
  lastSent : Option Buffer := none
  retries : ℕ := 0
  timer : Bool := false
  status : Status := .transferring
  pending : List Callback := []
  log : List Output := []

/-- The options of a request that are looked at. -/
structure Options where
  blksize : Option String := none
  timeout : Option String := none
  tsize : Option String := none

namespace Session

variable (s : Session)

def isOpen : Bool := s.status = .transferring

/-! ## Sending -/

def send (s : Session) (packet : Buffer) : Session := { s with log := s.log ++ [.send packet] }

def transmit (packet : Buffer) : Session :=
  { s.send packet with lastSent := some packet, timer := true }

/-- `sendPacket`, which expects an answer. -/
def sendPacket (packet : Buffer) : Session :=
  if s.isOpen then s.transmit packet else s

/-- `cleanup` of a session with its last status. -/
def cleanup (status : Status) : Session :=
  if s.isOpen then
    { s with status := status, timer := false, fileBuffer := [], writeChunks := [] }
  else s

def complete : Session := s.cleanup .completed

def fail : Session := s.cleanup .error

/-- `sendError`. The session ends when the packet has been sent. -/
def sendError (code : ErrorCode) (message : String) : Session :=
  if s.isOpen then
    { s.send (buildError code message) with pending := s.pending ++ [.fail] }
  else s

def onTimeout : Session :=
  if s.isOpen then
    if s.maxRetries ≤ s.retries then s.fail
    else
      match s.lastSent with
      | some packet => { s.send packet with retries := s.retries + 1, timer := true }
      | none => { s with retries := s.retries + 1, timer := true }
  else s

/-! ## Options -/

/-- The block size that is accepted: what the client asks for, brought into its bounds. -/
def negotiateBlockSize (requested : Options) : Option ℕ :=
  ((requested.blksize.bind parseInt).filter isFinite).map fun blksize =>
    (max 8 (min 65464 blksize)).toNat

/-- `negotiateOptions`: the session with its block size, and the options that are accepted. The size
of the file is a text already. -/
def negotiateOptions (requested : Options) (fileSize : Option String) :
    Session × List (String × String) :=
  let blksize := negotiateBlockSize requested
  let timeout := (requested.timeout.bind parseInt).filter fun t => 1 ≤ t ∧ t ≤ 255
  let tsize := requested.tsize.map fun tsize => fileSize.getD tsize
  ({ s with blockSize := blksize.getD s.blockSize },
    (blksize.map fun n => ("blksize", toString n)).toList ++
      (timeout.map fun t => ("timeout", toString t)).toList ++
      (tsize.map fun size => ("tsize", size)).toList)

/-! ## Downloads -/

def sendDataBlock (blockNumber : ℕ) : Session :=
  let offset := (blockNumber - 1) * s.blockSize
  let stop := min (offset + s.blockSize) s.totalSize
  let chunk := (s.fileBuffer.take stop).drop offset
  { s with blockNumber := blockNumber }.sendPacket (buildData blockNumber chunk)

/-- Why a file cannot be read. -/
inductive ReadError where
  | enoent
  | other
  deriving DecidableEq

/-- The callback of `readFile` in `beginRead`. -/
def onRead (options : Options) : Except ReadError Buffer → Session
  | .error .enoent => s.sendError .fileNotFound "文件不存在"
  | .error .other => s.sendError .accessViolation "文件不可读"
  | .ok data =>
    if s.isOpen then
      let (s, accepted) :=
        { s with fileBuffer := data, totalSize := data.length }.negotiateOptions options
          (some (toString data.length))
      let s := { s with finalBlock := s.totalSize / s.blockSize + 1 }
      if accepted.isEmpty then s.sendDataBlock 1
      else { s with expectOackAck := true }.sendPacket (buildOack accepted)
    else s

def blockOf (opcode : Opcode) (msg : Buffer) : Option ℕ :=
  if readUInt16BE msg 0 = some opcode.code then readUInt16BE msg 2 else none

/-- The options have been acknowledged. -/
def acceptOack : Session := { s with expectOackAck := false, timer := false }

/-- The block that was sent last has been acknowledged. -/
def acceptAck : Session := { s with timer := false, retries := 0 }

def handleReadAck (msg : Buffer) : Session :=
  match blockOf .ack msg with
  | none => s
  | some acked =>
    if s.expectOackAck then
      if acked = 0 then s.acceptOack.sendDataBlock 1 else s
    else if acked ≠ s.blockNumber then s
    else if s.finalBlock ≤ acked then s.acceptAck.complete
    else s.acceptAck.sendDataBlock (acked + 1)

/-! ## Uploads -/

/-- `String(parseInt(text, 10))` of a size that a number holds exactly -/
def declaredSize (tsize : String) : String :=
  match parseInt tsize with
  | some n => toString n
  | none => "NaN"

/-- `beginWrite`, once the path has been found to be allowed. -/
def beginWrite (options : Options) : Session :=
  let (s, accepted) :=
    { s with writeChunks := [], blockNumber := 0 }.negotiateOptions options
      (options.tsize.map declaredSize)
  if accepted.isEmpty then s.sendPacket (buildAck 0) else s.sendPacket (buildOack accepted)

/-- `flushWriteFile` starts to write the file. -/
def flushWriteFile (lastBlock : ℕ) : Session :=
  let content := s.writeChunks.flatten
  { s with log := s.log ++ [.writeFile content]
           pending := s.pending ++ [.written content lastBlock] }

/-- A new block is taken. -/
def accept (block : ℕ) (data : Buffer) : Session :=
  { s with writeChunks := s.writeChunks ++ [data], blockNumber := block, timer := false
           retries := 0 }

def handleWriteData (msg : Buffer) : Session :=
  match blockOf .data msg with
  | none => s
  | some block =>
    let data := msg.drop 4
    if block = (s.blockNumber + 1) % 2 ^ 16 then
      if data.length < s.blockSize then (s.accept block data).flushWriteFile block
      else (s.accept block data).sendPacket (buildAck block)
    else if block = s.blockNumber then s.send (buildAck block)
    else s

/-- Why a file cannot be written. -/
inductive WriteError where
  | enospc
  | other
  deriving DecidableEq

/-- The callback of `writeFile`. -/
def onWritten (content : Buffer) (lastBlock : ℕ) : Option WriteError → Session
  | some .enospc => s.sendError .diskFull "写入文件失败"
  | some .other => s.sendError .accessViolation "写入文件失败"
  | none =>
    if s.isOpen then
      { s.send (buildAck lastBlock) with
        totalSize := content.length, pending := s.pending ++ [.complete] }
    else s

/-! ## Events -/

def onSocketMessage (msg : Buffer) : Session :=
  if s.isOpen then
    match readUInt16BE msg 0 with
    | none => s
    | some opcode =>
      if opcode = Opcode.error.code then s.fail
      else match s.kind with
        | .read => s.handleReadAck msg
        | .write => s.handleWriteData msg
  else s

def callback (result : Option WriteError) : Callback → Session
  | .written content lastBlock => s.onWritten content lastBlock result
  | .complete => s.complete
  | .fail => s.fail

/-- A message arrives, the timer fires, or an operation ends. Operations end in any order. -/
inductive Event where
  | message (msg : Buffer)
  | timeout
  | done (i : ℕ) (result : Option WriteError)

def step : Event → Session
  | .message msg => s.onSocketMessage msg
  | .timeout => if s.timer then s.onTimeout else s
  | .done i result =>
    match s.pending[i]? with
    | some operation => { s with pending := s.pending.eraseIdx i }.callback result operation
    | none => s

end Session

end Tftp
