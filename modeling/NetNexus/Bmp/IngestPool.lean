import Mathlib.Algebra.Order.Ring.Int
import Mathlib.Data.Fintype.Defs
import Mathlib.Data.List.FinRange

/-!
# The pool of parser threads

`BmpIngestClientPool` and the worker `bmpIngestWorker` behind each of its slots. A connection owns
a slot until its close was acknowledged; requests and results travel in order on two channels for
each slot. The session that parses the bytes in the worker is a parameter, and so is what the
owner of the pool does with a result. Tokens and request identifiers are numbers of one counter.
-/

namespace Bmp.IngestPool

/-! ## The worker -/

/-- The operations of a slot. -/
inductive Op where
  | attach (valid : Bool)
  | data (bytes : List UInt8)
  | close
  | barrier
  deriving DecidableEq

/-- A request that is posted to a slot. -/
structure Request where
  id : ℕ
  token : ℕ
  op : Op

/-- An action that a slot reports. -/
inductive Action (A : Type) where
  | sessionClose
  | emit (action : A)

/-- What a call of the session did: its actions and the changes of its context. -/
structure Handling (σ A : Type) where
  session : σ
  actions : List (Action A) := []
  destroyed : Bool := false
  closeStarted : Bool := false
  closed : Bool := false
  failed : Bool := false
  throws : Bool := false

/-- A parser of sessions, which runs in a slot. -/
structure Parser (σ A : Type) where
  start : ℕ → σ
  recvMsg : σ → List UInt8 → Handling σ A
  closeSession : σ → Handling σ A
  clearBuffer : σ → σ
  bufferedMessageBytes : σ → ℕ

/-- The session that a slot runs. -/
structure Context (σ : Type) where
  token : ℕ
  session : σ
  destroyed : Bool := false
  closeStarted : Bool := false
  closed : Bool := false
  failure : Bool := false

/-- The answer to a request. -/
structure Result (A : Type) where
  requestId : ℕ
  token : ℕ
  actions : List (Action A)
  bufferedMessageBytes : ℕ
  closed : Bool
  error : Bool

namespace Context

variable {σ A : Type} (parser : Parser σ A) (context : Context σ)

def update (handling : Handling σ A) : Context σ :=
  { context with
    session := handling.session
    destroyed := context.destroyed || handling.destroyed
    closeStarted := context.closeStarted || handling.closeStarted
    closed := context.closed || handling.closed
    failure := context.failure || handling.failed }

/-- The context, the actions of its close, and whether closing threw. -/
def closeContext : Context σ × List (Action A) × Bool :=
  if context.closeStarted then (context, [], false)
  else
    let handling := parser.closeSession context.session
    let context := { context with closeStarted := true }.update handling
    if handling.throws then (context, handling.actions, true)
    else ({ context with closed := true }, handling.actions, false)

def markSocketDestroyed : Context σ × List (Action A) :=
  if context.destroyed then (context, [])
  else
    ({ context with
        destroyed := true, closed := true, session := parser.clearBuffer context.session },
      [.sessionClose])

/-- An error in a request of the connection closes it. -/
def handleThrow : Context σ × List (Action A) :=
  let closed := closeContext parser { context with failure := true }
  if closed.2.2 then
    let destroyed := markSocketDestroyed parser closed.1
    (destroyed.1, closed.2.1 ++ destroyed.2)
  else (closed.1, closed.2.1)

end Context

section Worker

variable {σ A : Type} (parser : Parser σ A)

def result (context : Option (Context σ)) (request : Request) (actions : List (Action A))
    (error : Bool) : Result A :=
  match context.filter fun context => context.token = request.token with
  | some context =>
    ⟨request.id, request.token, actions, parser.bufferedMessageBytes context.session,
      context.closed, error || context.failure⟩
  | none => ⟨request.id, request.token, actions, 0, true, error⟩

/-- The new context, or nothing if the connection is refused. -/
def attach (context : Option (Context σ)) (token : ℕ) (valid : Bool) : Option (Context σ) :=
  match context.filter fun context => !context.closed with
  | some context => if context.token = token then some context else none
  | none => if valid then some ⟨token, parser.start token, false, false, false, false⟩ else none

def answer (context : Context σ) (request : Request) (actions : List (Action A)) (throws : Bool) :
    Option (Context σ) × Result A :=
  if throws then
    let thrown := context.handleThrow parser
    (some thrown.1, result parser (some thrown.1) request (actions ++ thrown.2) true)
  else (some context, result parser (some context) request actions false)

/-- `handleMessage` of the worker for a connection that owns it -/
def handleOwned (context : Context σ) (request : Request) : Option (Context σ) × Result A :=
  match request.op with
  | .data bytes =>
    if context.closed then answer parser context request [] false
    else
      let handling := parser.recvMsg context.session bytes
      answer parser (context.update handling) request handling.actions handling.throws
  | .close =>
    let closed := context.closeContext parser
    answer parser closed.1 request closed.2.1 closed.2.2
  | _ => answer parser context request [] false

/-- `handleMessage` of the worker -/
def handleRequest (context : Option (Context σ)) (request : Request) :
    Option (Context σ) × Result A :=
  match request.op with
  | .attach valid =>
    match attach parser context request.token valid with
    | some attached => (some attached, result parser (some attached) request [] false)
    | none => (context, result parser context request [] true)
  | _ =>
    match context.filter fun context => context.token = request.token with
    | some owned => handleOwned parser owned request
    | none => (context, result parser context request [] true)

def replay (context : Option (Context σ)) : List Request → Option (Context σ) × List (Result A)
  | [] => (context, [])
  | request :: rest =>
    let handled := handleRequest parser context request
    let later := replay handled.1 rest
    (later.1, handled.2 :: later.2)

end Worker

/-! ## The pool -/

/-- A connection record. The request behind its close promise is `some none` if it was refused. -/
structure Record (n : ℕ) (S : Type) where
  index : Fin n
  pendingBytes : ℕ := 0
  retainedBufferBytes : ℕ := 0
  closing : Bool := false
  closed : Bool := false
  closePromise : Option (Option ℕ) := none
  destroyed : Bool := false
  /-- The source that its session is known to belong to. -/
  source : Option S := none

/-- What the pool keeps of a request until it is answered. -/
structure Callback (n : ℕ) where
  slot : Fin n
  token : ℕ
  op : Op
  bytes : ℕ

/-- A slot with its worker and the messages under way in both directions. -/
structure Slot (σ A : Type) where
  record : Option ℕ := none
  requests : List Request := []
  results : List (Result A) := []
  context : Option (Context σ) := none

/-- A call of `fence`: the requests it waits for, with `none` for a refused one, the records it left
out with the source they belong to, and how many requests had been posted. -/
structure Fence (S : Type) where
  source : Option S
  awaits : List (Option ℕ)
  skipped : List (ℕ × S)
  posted : ℕ

/-- What was posted to the workers, handed to `onResult` with the token of a record, and
acknowledged, and the fences. -/
structure Log (A S : Type) where
  posted : List Request := []
  handed : List (ℕ × Result A) := []
  acknowledged : List ℕ := []
  fences : List (Fence S) := []

/-- The pool with its slots, its records and a log. -/
structure Pool (n : ℕ) (σ A S : Type) where
  slots : Fin n → Slot σ A := fun _ => {}
  records : ℕ → Option (Record n S) := fun _ => none
  callbacks : ℕ → Option (Callback n) := fun _ => none
  sequence : ℕ := 0
  failure : Bool := false
  closing : Bool := false
  log : Log A S := {}

/-- What `onResult` and `onClosed` do: they may throw, close the session, and learn its source. -/
structure Reaction (S : Type) where
  throws : Bool := false
  closes : Bool := false
  source : Option S := none
  closedThrows : Bool := false

namespace Pool

variable {n : ℕ} {σ A S : Type} (p : Pool n σ A S)

def setSlot (i : Fin n) (f : Slot σ A → Slot σ A) : Pool n σ A S :=
  { p with slots := Function.update p.slots i (f (p.slots i)) }

def setRecord (token : ℕ) (f : Record n S → Record n S) : Pool n σ A S :=
  { p with records := Function.update p.records token ((p.records token).map f) }

def handleFailure : Pool n σ A S :=
  if p.failure then p else { p with failure := true, callbacks := fun _ => none }

/-- A request to a worker, and its identifier unless it is refused. -/
def request (i : Fin n) (token : ℕ) (op : Op) (bytes : ℕ) : Pool n σ A S × Option ℕ :=
  if p.failure then (p, none)
  else
    let id := p.sequence + 1
    let posted : Request := ⟨id, token, op⟩
    let p := { p with
      sequence := id
      callbacks := Function.update p.callbacks id (some ⟨i, token, op, bytes⟩)
      log := { p.log with posted := p.log.posted ++ [posted] } }
    (p.setSlot i fun slot => { slot with requests := slot.requests ++ [posted] }, some id)

/-- The first slot without a connection -/
def freeSlot? : Option (Fin n) :=
  if p.closing || p.failure then none
  else (List.finRange n).find? fun i => (p.slots i).record.isNone

def attach (valid : Bool) : Pool n σ A S :=
  match p.freeSlot? with
  | none => p
  | some i =>
    let token := p.sequence + 1
    let p := { p with
      sequence := token, records := Function.update p.records token (some { index := i }) }
    let p := p.setSlot i fun slot => { slot with record := some token }
    (p.request i token (.attach valid) 0).1

def send (token : ℕ) (bytes : List UInt8) : Pool n σ A S :=
  match p.records token with
  | none => p
  | some record =>
    if record.closing || record.closed || p.closing || p.failure then p
    else if (p.slots record.index).record ≠ some token then p
    else
      let p := p.setRecord token fun record =>
        { record with pendingBytes := record.pendingBytes + bytes.length }
      (p.request record.index token (.data bytes) bytes.length).1

/-- `closeSession`, and the request that it waits for unless that was refused. A closed record has
nothing to wait for. -/
def closeSession (token : ℕ) : Pool n σ A S × List (Option ℕ) :=
  match p.records token with
  | none => (p, [])
  | some record =>
    if record.closed then (p, [])
    else
      match record.closePromise with
      | some promise => (p, [promise])
      | none =>
        let requested := p.request record.index token .close 0
        let p := requested.1.setRecord token fun record =>
          { record with closing := true, closePromise := some requested.2, destroyed := true }
        (p, [requested.2])

def retainedBufferBytes : ℕ :=
  ((List.finRange n).map fun i =>
    match (p.slots i).record.bind p.records with
    | some record => record.retainedBufferBytes
    | none => 0).sum

/-- The socket of a session was destroyed. -/
def destroy (token : ℕ) : Pool n σ A S :=
  p.setRecord token fun record => { record with destroyed := true }

def acknowledge (id : ℕ) : Pool n σ A S :=
  { p with log := { p.log with acknowledged := p.log.acknowledged ++ [id] } }

variable (maxRetainedBufferBytes : ℕ)

/-- The slot is free after the close of its connection was acknowledged. -/
def release (i : Fin n) (token : ℕ) (id : ℕ) (throws : Bool) : Pool n σ A S :=
  let p := p.setRecord token fun record =>
    { record with retainedBufferBytes := 0, closed := true }
  let p := p.setSlot i fun slot => { slot with record := none }
  if throws then p.handleFailure else p.acknowledge id

/-- Whether a result closes the connection: its session did, or too many bytes are retained. -/
def overflows (token : ℕ) (closed : Bool) : Bool :=
  match p.records token with
  | none => false
  | some record =>
    !record.closing && (closed ||
      (decide (0 < record.retainedBufferBytes) &&
        decide (maxRetainedBufferBytes < p.retainedBufferBytes)))

/-- What follows when `onResult` has returned. -/
def settle (i : Fin n) (token : ℕ) (callback : Callback n) (message : Result A)
    (reaction : Reaction S) : Pool n σ A S :=
  let p := p.setRecord token fun record =>
    { record with
      retainedBufferBytes := message.bufferedMessageBytes
      pendingBytes := record.pendingBytes - callback.bytes }
  if callback.op = .close then p.release i token message.requestId reaction.closedThrows
  else
    let p := if p.overflows maxRetainedBufferBytes token message.closed then
      (p.closeSession token).1 else p
    p.acknowledge message.requestId

/-- A result goes to `onResult` with the record of its slot. -/
def accept (i : Fin n) (token : ℕ) (callback : Callback n) (message : Result A)
    (reaction : Reaction S) : Pool n σ A S :=
  let p := { p with log := { p.log with handed := p.log.handed ++ [(token, message)] } }
  let p := p.setRecord token fun record =>
    { record with source := reaction.source.or record.source }
  let p := if reaction.closes then (p.closeSession token).1 else p
  if reaction.throws then p.handleFailure
  else p.settle maxRetainedBufferBytes i token callback message reaction

/-- `handleMessage` of the pool for the first result of a slot -/
def handleMessage (i : Fin n) (reaction : Reaction S) : Pool n σ A S :=
  match (p.slots i).results with
  | [] => p
  | message :: rest =>
    let p := p.setSlot i fun slot => { slot with results := rest }
    match p.callbacks message.requestId with
    | none => p
    | some callback =>
      if callback.slot ≠ i ∨ callback.token ≠ message.token then p
      else
        let p := { p with callbacks := Function.update p.callbacks message.requestId none }
        if message.error then p.handleFailure
        else
          match (p.slots i).record.filter fun token => token = message.token with
          | some token => p.accept maxRetainedBufferBytes i token callback message reaction
          | none => p.acknowledge message.requestId

def work (parser : Parser σ A) (i : Fin n) : Pool n σ A S :=
  match (p.slots i).requests with
  | [] => p
  | request :: rest =>
    let handled := handleRequest parser (p.slots i).context request
    p.setSlot i fun slot =>
      { slot with
        requests := rest, results := slot.results ++ [handled.2], context := handled.1 }

/-! ## Fences -/

/-- A fence for one source leaves out records that are known to belong to another. -/
def skips [DecidableEq S] (source : Option S) (record : Record n S) : Option S :=
  match source, record.source with
  | some target, some own => if own ≠ target then some own else none
  | _, _ => none

/-- The part of `fence` for one slot: what it waits for and the record that it leaves out -/
def fenceSlot [DecidableEq S] (source : Option S) (i : Fin n) :
    Pool n σ A S × List (Option ℕ) × List (ℕ × S) :=
  match (p.slots i).record with
  | none => (p, [], [])
  | some token =>
    match p.records token with
    | none => (p, [], [])
    | some record =>
      match skips source record with
      | some own => (p, [], [(token, own)])
      | none =>
        if record.closing || record.destroyed then
          let closed := p.closeSession token
          (closed.1, closed.2, [])
        else
          let requested := p.request i token .barrier 0
          (requested.1, [requested.2], [])

def fenceSlots [DecidableEq S] (source : Option S) (indices : List (Fin n)) :
    Pool n σ A S × List (Option ℕ) × List (ℕ × S) :=
  indices.foldl
    (fun fenced i =>
      let slot := fenced.1.fenceSlot source i
      (slot.1, fenced.2.1 ++ slot.2.1, fenced.2.2 ++ slot.2.2))
    (p, [], [])

def fence [DecidableEq S] (source : Option S) : Pool n σ A S :=
  let fenced := p.fenceSlots source (List.finRange n)
  let fence := ⟨source, fenced.2.1, fenced.2.2, p.log.posted.length⟩
  { fenced.1 with log := { fenced.1.log with fences := fenced.1.log.fences ++ [fence] } }

/-- `close` of the pool, up to the shutdown of its workers -/
def close : Pool n σ A S :=
  (List.finRange n).foldl
    (fun p i =>
      match (p.slots i).record with
      | some token => (p.closeSession token).1
      | none => p)
    { p with closing := true }

end Pool

/-- What happens to a pool. -/
inductive Event (n : ℕ) (S : Type) where
  | attach (valid : Bool)
  | send (token : ℕ) (bytes : List UInt8)
  | destroy (token : ℕ)
  | closeSession (token : ℕ)
  | fence (source : Option S)
  | close
  | work (i : Fin n)
  | message (i : Fin n) (reaction : Reaction S)
  | workerFailure

section Run

variable {n : ℕ} {σ A S : Type} [DecidableEq S]

def step (parser : Parser σ A) (maxRetainedBufferBytes : ℕ) (p : Pool n σ A S) :
    Event n S → Pool n σ A S
  | .attach valid => p.attach valid
  | .send token bytes => p.send token bytes
  | .destroy token => p.destroy token
  | .closeSession token => (p.closeSession token).1
  | .fence source => p.fence source
  | .close => p.close
  | .work i => p.work parser i
  | .message i reaction => p.handleMessage maxRetainedBufferBytes i reaction
  | .workerFailure => p.handleFailure

def run (parser : Parser σ A) (maxRetainedBufferBytes : ℕ) (events : List (Event n S)) :
    Pool n σ A S :=
  events.foldl (step parser maxRetainedBufferBytes) {}

end Run

/-! ## What the pool promises -/

def Op.bytes : Op → ℕ
  | .data bytes => bytes.length
  | _ => 0

namespace Log

variable {A S : Type} (log : Log A S)

/-- The requests of a connection, in the order in which they were sent. -/
def sentBy (token : ℕ) : List Request := log.posted.filter fun request => request.token = token

/-- The results that `onResult` got for a connection, in that order. -/
def handedTo (token : ℕ) : List (Result A) :=
  (log.handed.filter fun handed => handed.1 = token).map Prod.snd

/-- The bytes sent for a connection that no result acknowledges. -/
def unacknowledged (token : ℕ) : ℕ :=
  (((log.sentBy token).filter fun request => request.id ∉ log.acknowledged).map
    fun request => request.op.bytes).sum

/-- All that the fence waits for is acknowledged. -/
def Resolved (fence : Fence S) : Prop :=
  ∀ promise ∈ fence.awaits, ∃ id ∈ log.acknowledged, promise = some id

/-- The result of a request was handed to `onResult`. -/
def Handed (request : Request) : Prop :=
  ∃ result ∈ log.handedTo request.token, result.requestId = request.id

end Log

/-- What holds of a pool at any time. -/
structure Pool.Isolated {n : ℕ} {σ A S : Type} (p : Pool n σ A S) (parser : Parser σ A) :
    Prop where
  /-- A slot has at most one live connection. -/
  one_record : ∀ token token' record record', p.records token = some record →
    p.records token' = some record' → record.closed = false → record'.closed = false →
    record.index = record'.index → token = token'
  /-- A connection gets the results of a worker that only handles its own requests, in order. -/
  delivered : ∀ token, p.log.handedTo token <+: (replay parser none (p.log.sentBy token)).2
  pending : ∀ token record, p.records token = some record →
    record.pendingBytes = p.log.unacknowledged token
  /-- A fence that is resolved has waited for the results of all requests sent before, but for
  records that were known to belong to another source. -/
  fenced : ∀ fence ∈ p.log.fences, p.log.Resolved fence →
    ∀ request ∈ p.log.posted.take fence.posted,
      request.token ∉ fence.skipped.map Prod.fst → p.log.Handed request
  skipped : ∀ fence ∈ p.log.fences, ∀ other ∈ fence.skipped,
    ∃ target, fence.source = some target ∧ other.2 ≠ target

end Bmp.IngestPool
