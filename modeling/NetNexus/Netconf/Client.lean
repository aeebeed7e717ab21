import NetNexus.Netconf.Envelope
import NetNexus.Correlation.Ledger
import NetNexus.Table.Table

/-!
# The NETCONF client

A session of `NetconfClient` from the moment its hello is sent. Events come one at a time: calls,
timers and what the transport reports; what happens to the promises of `rpc` is logged. Events that
are emitted, the promise of `connect` and the teardown of the transport are left out.
-/

namespace Netconf

open Node Stream Correlation

/-- The base version that was agreed on. -/
inductive BaseVersion where
  | v10
  | v11
  deriving DecidableEq

/-! ## Framers -/

/-- The framer of an established session. -/
inductive Framer where
  | delimiter (framer : DelimiterFramer) (buffered : Buffered UInt8 Unit)
  | chunked (framer : ChunkedFramer) (buffered : Buffered UInt8 PartialMessage)

def createFramer (options : FramerOptions) : BaseVersion → Framer
  | .v10 => .delimiter (.create options) DelimiterFramer.initial
  | .v11 => .chunked (.create options) ChunkedFramer.initial

/-- `framer.push(chunk)`. The messages before a failure are lost, and so is the framer. -/
def Framer.push (chunk : Buffer) : Framer → Except FramingError (List String × Framer)
  | .delimiter framer buffered =>
    match framer.decoder.push buffered chunk none with
    | some (.returned messages buffered) => .ok (messages, .delimiter framer buffered)
    | some (.thrown e _ _) => .error e
    | none => .ok ([], .delimiter framer buffered)
  | .chunked framer buffered =>
    match framer.decoder.push buffered chunk none with
    | some (.returned messages buffered) => .ok (messages, .chunked framer buffered)
    | some (.thrown e _ _) => .error e
    | none => .ok ([], .chunked framer buffered)

/-- `encodeMessage`, as far as it can fail. -/
def encodeMessage (version : BaseVersion) (chunkSize : ℕ) (xml : String) :
    Except ClientError Buffer :=
  match version with
  | .v10 => .ok (encodeDelimiter (utf8Encode xml))
  | .v11 =>
    match encodeChunked (utf8Encode xml) chunkSize with
    | .ok bytes => .ok bytes
    | .error (.framing e) => .error ⟨.other, e.message, "NETCONF_EMPTY_CHUNKED_MESSAGE"⟩
    | .error (.type message) => .error ⟨.type, message, ""⟩

/-! ## The state of a client -/

/-- `connecting` and `idle` come before a session. -/
inductive SessionState where
  | hello
  | connected
  | closed
  deriving DecidableEq

def SessionState.text : SessionState → String
  | .hello => "hello"
  | .connected => "connected"
  | .closed => "closed"

/-- An entry of `pending`. The promise is known by the number of the call. -/
structure Pending where
  messageId : String
  promise : ℕ
  requestXml : String
  rejectOnRpcError : Bool

/-- A timer that runs, with what its callback refers to. -/
structure Timer where
  promise : ℕ
  messageId : String
  timeout : ℤ

/-- The options of a client. -/
structure ClientOptions where
  framer : FramerOptions := {}
  chunkSize : ℕ := 0
  clientCapabilities : List String
  rpcTimeout : ℤ := 300000
  helloTimeout : ℤ := 20000
  initialMessageId : ℕ := 1

/-- A session of a client. -/
structure Client where
  options : ClientOptions
  state : SessionState
  baseVersion : BaseVersion
  helloBuffer : Buffered UInt8 Unit
  framer : Framer
  pending : Table Pending.messageId
  retiredMessageIds : List String
  timers : List Timer
  nextMessageId : ℕ
  inboundMessageSequence : ℕ
  /-- The number of calls of `rpc` that returned a promise. -/
  promises : ℕ

/-- How a reply settles its promise. -/
inductive Settlement where
  | resolved (requestXml : String)
  | rejected (error : ClientError)

/-- A reply with what became of the request. -/
structure Delivery where
  reply : Reply
  settlement : Option Settlement

/-- What happened to the promises of a session. -/
abbrev LogEntry := Correlation.Entry String String Delivery ClientError

/-- A session whose hello has been sent. -/
def Client.start (options : ClientOptions) : Client where
  options
  state := .hello
  baseVersion := .v10
  helloBuffer := DelimiterFramer.initial
  framer := createFramer options.framer .v10
  pending := .empty
  retiredMessageIds := []
  timers := []
  nextMessageId := options.initialMessageId
  inboundMessageSequence := 0
  promises := 0

namespace Client

/-! ## The end of a session -/

/-- `clearTimeout` of the timer of a promise -/
def clearTimeout (c : Client) (promise : ℕ) : Client :=
  { c with timers := c.timers.filter (·.promise ≠ promise) }

/-- The requests that wait are rejected in the order in which they were made. -/
def rejectPending (c : Client) (error : ClientError) : Client × List LogEntry :=
  (c.pending.rows.foldl (fun c entry => c.clearTimeout entry.promise) { c with pending := .empty },
    c.pending.rows.map fun entry => .dropped entry.promise error)

def terminate (c : Client) (error : ClientError) : Client × List LogEntry :=
  if c.state = .closed ∧ c.pending.rows = [] then (c, [])
  else
    let (c, log) := { c with state := .closed }.rejectPending error
    ({ c with retiredMessageIds := [] }, log ++ [.closed])

/-! ## Messages -/

/-- The reason of `NetconfRpcError`. -/
def rpcError (errors : List RpcErrorInfo) : ClientError :=
  let first := errors.head?
  let given := fun text : Option String => text.filter (· ≠ "")
  let detail := ((given (first.bind (·.message))).or (given (first.bind (·.tag)))).getD
    "unspecified RPC error"
  ⟨.rpc, "NETCONF RPC failed: " ++ detail, "NETCONF_RPC_ERROR"⟩

def settlement (entry : Pending) (reply : Reply) : Settlement :=
  if !reply.errors.isEmpty && entry.rejectOnRpcError then .rejected (rpcError reply.errors)
  else .resolved entry.requestXml

/-- The part of `_handleMessage` for replies. A reply without an id, or with an empty one, is
nobody's. -/
def handleReply (c : Client) (reply : Reply) : Client × List LogEntry :=
  match reply.messageId.filter (· ≠ "") with
  | none => (c, [.orphan ⟨reply, none⟩])
  | some messageId =>
    if messageId ∈ c.retiredMessageIds then
      ({ c with retiredMessageIds := c.retiredMessageIds.filter (· ≠ messageId) },
        [.orphan ⟨reply, none⟩])
    else
      match c.pending.find? messageId with
      | none => (c, [.orphan ⟨reply, none⟩])
      | some entry =>
        ({ c with pending := c.pending.delete messageId }.clearTimeout entry.promise,
          [.answered entry.promise ⟨reply, some (settlement entry reply)⟩])

section

variable (lib : XmlLibrary)

def maxInlineRpcReplyBytes : ℕ := 256 * 1024

variable (c : Client)

def handleMessage (xml : String) : Except ClientError (Client × List LogEntry) := do
  let message ← parseNetconfMessage lib c.options.framer.maxMessageSize
    (xml.utf8ByteSize > maxInlineRpcReplyBytes) xml
  let c := { c with inboundMessageSequence := c.inboundMessageSequence + 1 }
  match message with
  | .rpcReply reply =>
    return c.handleReply { reply with transportSequence := c.inboundMessageSequence }
  | _ => return (c, [])

/-- The messages of one delivery. What was handled before a message that throws stays handled. -/
def handleMessages (c : Client) : List String → Client × List LogEntry × Option ClientError
  | [] => (c, [], none)
  | xml :: messages =>
    match c.handleMessage lib xml with
    | .error e => (c, [], some e)
    | .ok (c, log) =>
      let (c, log', failure) := handleMessages c messages
      (c, log ++ log', failure)

def decodeEstablishedData (chunk : Buffer) : Client × List LogEntry × Option ClientError :=
  match c.framer.push chunk with
  | .error e => (c, [], some ⟨.other, e.message, ""⟩)
  | .ok (messages, framer) => { c with framer }.handleMessages lib messages

def supportsBase (capabilities : List String) (version : String) : Bool :=
  let expected := ("urn:ietf:params:netconf:base:" ++ version).toList
  capabilities.any fun capability =>
    capability.toList == expected || (expected ++ ['?']).isPrefixOf capability.toList

def commonBase (server client : List String) : Option BaseVersion :=
  if supportsBase server "1.1" && supportsBase client "1.1" then some .v11
  else if supportsBase server "1.0" && supportsBase client "1.0" then some .v10
  else none

def messageType : Message → String
  | .hello _ _ => "hello"
  | .rpcReply _ => "rpc-reply"
  | .notification _ _ => "notification"
  | .other type _ => type

def handleServerHello (xml : String) : Except ClientError Client := do
  match ← parseNetconfMessage lib c.options.framer.maxMessageSize false xml with
  | .hello sessionId capabilities =>
    if sessionId.all (· = "") then
      .error ⟨.protocol, "Server hello has no session-id", "NETCONF_HELLO_NO_SESSION_ID"⟩
    else
      match commonBase capabilities c.options.clientCapabilities with
      | none =>
        .error ⟨.protocol, "Client and server have no common NETCONF base capability",
          "NETCONF_NO_COMMON_BASE"⟩
      | some baseVersion =>
        return { c with
          baseVersion, framer := createFramer c.options.framer baseVersion, state := .connected }
  | message =>
    .error ⟨.protocol, "Expected NETCONF hello but received " ++ messageType message,
      "NETCONF_EXPECTED_HELLO"⟩

/-- The error of `_handleData`: only protocol errors are passed on as they are. -/
def protocolError (e : ClientError) : ClientError :=
  if e.name = .protocol then e
  else ⟨.protocol, "Invalid NETCONF message: " ++ e.message, "NETCONF_PROTOCOL_ERROR"⟩

/-- `_failProtocol`, if there was an error. -/
def failing (result : Client × List LogEntry × Option ClientError) : Client × List LogEntry :=
  match result with
  | (c, log, none) => (c, log)
  | (c, log, some e) =>
    let (c, log') := c.terminate (protocolError e)
    (c, log ++ log')

/-- The part of `_handleData` before the hello of the server. -/
def handleHelloData (chunk : Buffer) : Client × List LogEntry × Option ClientError :=
  match (DelimiterFramer.create c.options.framer).decoder.push c.helloBuffer chunk (some 1) with
  | some (.returned [] helloBuffer) => ({ c with helloBuffer }, [], none)
  | some (.returned (xml :: _) helloBuffer) =>
    let c := { c with helloBuffer := { helloBuffer with buffer := [] } }
    match c.handleServerHello lib xml with
    | .error e => (c, [], some e)
    | .ok c =>
      if helloBuffer.buffer = [] then (c, [], none)
      else c.decodeEstablishedData lib helloBuffer.buffer
  | some (.thrown e _ helloBuffer) => ({ c with helloBuffer }, [], some ⟨.other, e.message, ""⟩)
  | none => (c, [], none)

def handleData (chunk : Buffer) : Client × List LogEntry :=
  match c.state with
  | .hello => failing (c.handleHelloData lib chunk)
  | .connected => failing (c.decodeEstablishedData lib chunk)
  | .closed => (c, [])

/-! ## Calls -/

/-- `options.messageId`, as a text if it is given -/
inductive RequestedId where
  | undefined
  | null
  | given (id : String)
  deriving DecidableEq

/-- The arguments of `rpc`. -/
structure RpcCall where
  /-- The text of `operationOrRpc`, unless it is neither a string nor a buffer. -/
  operationOrRpc : Option String
  messageId : RequestedId := .undefined
  timeout : Option ℤ := none
  rejectOnRpcError : Bool := true
  /-- The message of the error that `transport.write` throws, if it does. -/
  writeError : Option String := none

/-- The promise is rejected at once. -/
def refuse (error : ClientError) : Client × List LogEntry :=
  ({ c with promises := c.promises + 1 }, [.refused c.promises error])

/-- `reserveMessageId`: the id and the next one. -/
def reserveMessageId : Except ClientError (ℕ × Client) :=
  if c.nextMessageId ≤ 2 ^ 53 - 1 then
    .ok (c.nextMessageId, { c with nextMessageId := c.nextMessageId + 1 })
  else .error ⟨.range, "NETCONF RPC message-id sequence is exhausted", ""⟩

/-- The id that a request asks for, by the option, by its text or as the next free number. -/
def requestedMessageId (requested : RequestedId) (existing : Option String) :
    Except ClientError (String × Client) :=
  match requested, existing with
  | .given id, _ => .ok (id, c)
  | .undefined, some id => .ok (id, c)
  | _, _ =>
    match c.reserveMessageId with
    | .ok (id, c) => .ok (toString id, c)
    | .error e => .error e

/-- `_write` of a request -/
def write (c : Client) (xml : String) (writeError : Option String) : Except ClientError Buffer := do
  let bytes ← encodeMessage c.baseVersion c.options.chunkSize xml
  match writeError with
  | none => return bytes
  | some message =>
    .error ⟨.connection, "Unable to write NETCONF message: " ++ message, "NETCONF_WRITE_FAILED"⟩

/-- The promise of a request that waits. The timer and the entry are set before the text is
written, and taken back if that fails. -/
def request (call : RpcCall) (envelope : Envelope) (timeout : ℤ) :
    Client × List LogEntry :=
  let promise := c.promises
  let timer : Timer := ⟨promise, envelope.messageId, timeout⟩
  let entry : Pending := ⟨envelope.messageId, promise, envelope.xml, call.rejectOnRpcError⟩
  let c := { c with
    promises := promise + 1, timers := c.timers ++ [timer], pending := c.pending.upsert entry }
  match c.write envelope.xml call.writeError with
  | .ok _ => (c, [.issued promise envelope.messageId envelope.xml])
  | .error e =>
    ({ c with pending := c.pending.delete envelope.messageId }.clearTimeout promise,
      [.refused promise e])

def sendEnvelope (call : RpcCall) (envelope : Envelope) : Client × List LogEntry :=
  let messageId := envelope.messageId
  if (c.pending.find? messageId).isSome then
    c.refuse ⟨.protocol, s!"RPC message-id {messageId} is already pending",
      "NETCONF_DUPLICATE_MESSAGE_ID"⟩
  else if messageId ∈ c.retiredMessageIds then
    c.refuse ⟨.protocol,
      s!"RPC message-id {messageId} is retired until its late reply arrives or the session ends",
      "NETCONF_RETIRED_MESSAGE_ID"⟩
  else
    let timeout := call.timeout.getD c.options.rpcTimeout
    if timeout ≤ 0 then c.refuse ⟨.type, "RPC timeout must be a positive number", ""⟩
    else c.request call envelope timeout

/-- `rpc`. A malformed entity in the id of an envelope throws before there is a promise. -/
def rpc (call : RpcCall) : Client × List LogEntry :=
  if c.state ≠ .connected then
    c.refuse ⟨.connection, "Cannot send RPC while client is " ++ c.state.text,
      "NETCONF_NOT_CONNECTED"⟩
  else
    match call.operationOrRpc with
    | none => c.refuse ⟨.type, "RPC operation must be an XML string or Buffer", ""⟩
    | some rawXml =>
      match extractRpcMessageId rawXml with
      | .error _ => (c, [])
      | .ok existing =>
        match c.requestedMessageId call.messageId existing with
        | .error e => c.refuse e
        | .ok (requested, c) =>
          match ensureRpcEnvelope lib rawXml requested with
          | .error e => c.refuse e
          | .ok envelope => c.sendEnvelope call envelope

def cancelRpc (messageId : Option String) : Client × List LogEntry :=
  match messageId.bind c.pending.find? with
  | none => (c, [])
  | some entry =>
    ({ c with
        pending := c.pending.delete entry.messageId
        retiredMessageIds :=
          c.retiredMessageIds.insert entry.messageId }.clearTimeout entry.promise,
      [.abandoned entry.promise
        ⟨.rpcCancelled, "NETCONF RPC " ++ entry.messageId ++ " was cancelled",
          "NETCONF_RPC_CANCELLED"⟩])

/-- The callback of a timer that runs. -/
def expire (timer : Timer) : Client × List LogEntry :=
  let c := c.clearTimeout timer.promise
  match c.pending.find? timer.messageId with
  | none => (c, [])
  | some _ =>
    ({ c with
        pending := c.pending.delete timer.messageId
        retiredMessageIds := c.retiredMessageIds.insert timer.messageId },
      [.abandoned timer.promise
        ⟨.timeout, "NETCONF RPC " ++ timer.messageId ++ " timed out after " ++
          toString timer.timeout ++ " ms", "NETCONF_RPC_TIMEOUT"⟩])

/-! ## Sessions -/

/-- What happens to a client. -/
inductive Event where
  | rpc (call : RpcCall)
  | cancelRpc (messageId : Option String)
  | timer (promise : ℕ)
  | data (chunk : Buffer)
  | helloTimeout
  /-- The transport reports an error or its end, or the client is told to disconnect. -/
  | terminate (error : ClientError)

def step : Event → Client × List LogEntry
  | .rpc call => c.rpc lib call
  | .cancelRpc messageId => c.cancelRpc messageId
  | .timer promise =>
    match c.timers.find? (·.promise = promise) with
    | some timer => c.expire timer
    | none => (c, [])
  | .data chunk => c.handleData lib chunk
  | .helloTimeout =>
    if c.state = .hello then
      c.terminate ⟨.connection,
        "NETCONF server hello timed out after " ++ toString c.options.helloTimeout ++ " ms",
        "NETCONF_HELLO_TIMEOUT"⟩
    else (c, [])
  | .terminate error => c.terminate error

def run (c : Client) : List Event → Client × List LogEntry
  | [] => (c, [])
  | event :: events =>
    let (c, log) := c.step lib event
    let (c, log') := run c events
    (c, log ++ log')

end

end Client

end Netconf
