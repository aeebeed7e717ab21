import Mathlib.Algebra.Order.Ring.Int
import Mathlib.Data.List.Basic

/-!
# The queue in front of the BMP store

`BmpPersistenceClient`: mutations are queued, sent to the worker of the store in batches, and sent
again if a batch fails. What callers of `fence` and `drain` and the listeners of the watermarks are
told is kept as notices. Batches are numbered by the sequence number in their identifier. Opening
and closing the client is left out: it is open.
-/

namespace Bmp.PersistenceClient

/-- The limits of a client. -/
structure Options where
  readOnly : Bool
  batchSize : ℕ
  batchBytes : ℕ
  highWatermarkBytes : ℕ
  lowWatermarkBytes : ℕ
  batchRetryLimit : ℕ

/-- A mutation that is queued. -/
structure Entry (M : Type) where
  mutation : M
  bytes : ℕ
  sequence : ℕ

/-- A batch that is under way. -/
structure Pending (M : Type) where
  entries : List (Entry M)
  bytes : ℕ
  batch : ℕ
  attempts : ℕ := 0

/-- A batch on its way to the worker. -/
structure Request (M : Type) where
  batch : ℕ
  mutations : List M

/-- What a caller or a listener is told. Calls of `fence` and `drain` are numbered. -/
inductive Notice where
  | pause
  | resume
  | fenceResolved (call : ℕ)
  | fenceRejected (call : ℕ)
  | drainResolved (call : ℕ)
  | drainRejected (call : ℕ)
  | failed
  deriving DecidableEq

/-- A caller of `fence` and the sequence number that it waits for. -/
structure FenceWaiter where
  call : ℕ
  target : ℕ

/-- The client with its queue. -/
structure Client (M : Type) where
  queue : List (Entry M) := []
  queueHead : ℕ := 0
  queueBytes : ℤ := 0
  inFlightBytes : ℤ := 0
  inFlight : Option (Pending M) := none
  flushTimer : Bool := false
  retryTimer : Bool := false
  batchSequence : ℕ := 0
  mutationSequence : ℕ := 0
  committedMutationSequence : ℕ := 0
  paused : Bool := false
  failure : Bool := false
  idleWaiters : List ℕ := []
  fenceWaiters : List FenceWaiter := []
  /-- The requests that were posted to the worker and not yet handled by it. -/
  requests : List (Request M) := []
  /-- The notices of the last event. -/
  notices : List Notice := []

namespace Client

variable {M : Type} (options : Options) (c : Client M)

def notify (notices : List Notice) : Client M := { c with notices := c.notices ++ notices }

def queued : List (Entry M) := c.queue.drop c.queueHead

def getQueueLength : ℕ := c.queue.length - c.queueHead

def updateBackpressure : Client M :=
  let bufferedBytes := c.queueBytes + c.inFlightBytes
  if !c.paused && decide (options.highWatermarkBytes ≤ bufferedBytes) then
    { c with paused := true }.notify [.pause]
  else if c.paused && !c.failure && decide (bufferedBytes ≤ options.lowWatermarkBytes) then
    { c with paused := false }.notify [.resume]
  else c

def scheduleFlush : Client M :=
  if c.flushTimer || c.inFlight.isSome || c.failure then c else { c with flushTimer := true }

def resolveIdleWaitersIfReady : Client M :=
  if c.inFlight.isSome || decide (0 < c.getQueueLength) then c
  else { c with idleWaiters := [] }.notify (c.idleWaiters.map .drainResolved)

def resolveFenceWaiters : Client M :=
  let isDone (waiter : FenceWaiter) := decide (waiter.target ≤ c.committedMutationSequence)
  { c with fenceWaiters := c.fenceWaiters.filter fun waiter => !isDone waiter }.notify
    ((c.fenceWaiters.filter isDone).map fun (waiter : FenceWaiter) => .fenceResolved waiter.call)

def handleWorkerFailure : Client M :=
  if c.failure then c
  else { c with failure := true, idleWaiters := [], fenceWaiters := [] }.notify
    (c.idleWaiters.map Notice.drainRejected ++
      c.fenceWaiters.map (fun (waiter : FenceWaiter) => Notice.fenceRejected waiter.call) ++
      [Notice.failed])

/-! ## Batches -/

/-- The loop of `takeBatch` -/
def takeLoop (taken : List (Entry M)) (bytes : ℕ) : List (Entry M) → List (Entry M) × ℕ
  | [] => (taken, bytes)
  | next :: rest =>
    if options.batchSize ≤ taken.length then (taken, bytes)
    else if 0 < taken.length ∧ options.batchBytes < bytes + next.bytes then (taken, bytes)
    else takeLoop (taken ++ [next]) (bytes + next.bytes) rest

/-- The part of the queue in front of its head is dropped when it has grown long. -/
def compact : Client M :=
  if 10000 < c.queueHead ∧ c.queue.length ≤ c.queueHead * 2 then
    { c with queue := c.queued, queueHead := 0 }
  else c

def sendInFlightBatch : Client M :=
  match c.inFlight with
  | some pending =>
    if c.failure then c
    else { c with
      inFlight := some { pending with attempts := pending.attempts + 1 }
      requests := c.requests ++ [Request.mk pending.batch (pending.entries.map Entry.mutation)] }
  | none => c

def flushNextBatch : Client M :=
  if c.inFlight.isSome || decide (c.getQueueLength = 0) || c.failure then
    c.resolveIdleWaitersIfReady
  else
    let taken := takeLoop options [] 0 c.queued
    let c := { c with
      queueHead := c.queueHead + taken.1.length, queueBytes := c.queueBytes - taken.2 }.compact
    let c := { c with
      batchSequence := c.batchSequence + 1
      inFlightBytes := taken.2
      inFlight := some (Pending.mk taken.1 taken.2 (c.batchSequence + 1) 0) }
    (c.updateBackpressure options).sendInFlightBatch

/-! ## Calls and timers -/

/-- `enqueue` throws -/
def refuses : Bool := options.readOnly || c.failure

/-- `enqueue` of a mutation whose size is estimated as that -/
def enqueue (mutation : M) (bytes : ℕ) : Client M :=
  if c.refuses options then c
  else
    let c := { c with
      mutationSequence := c.mutationSequence + 1
      queue := c.queue ++ [Entry.mk mutation bytes (c.mutationSequence + 1)]
      queueBytes := c.queueBytes + bytes }
    (c.updateBackpressure options).scheduleFlush

/-- The flush timer fires. -/
def fireFlush : Client M :=
  if c.flushTimer then { c with flushTimer := false }.flushNextBatch options else c

/-- The retry timer fires. -/
def fireRetry : Client M :=
  if c.retryTimer then { c with retryTimer := false }.sendInFlightBatch else c

def drain (call : ℕ) : Client M :=
  if c.failure then c.notify [.drainRejected call]
  else if !c.inFlight.isSome && decide (c.getQueueLength = 0) then c.notify [.drainResolved call]
  else
    let c := { c with flushTimer := false }.flushNextBatch options
    { c with idleWaiters := c.idleWaiters ++ [call] }

def fence (call : ℕ) : Client M :=
  if options.readOnly then c.notify [.fenceResolved call]
  else if c.failure then c.notify [.fenceRejected call]
  else if c.mutationSequence ≤ c.committedMutationSequence then c.notify [.fenceResolved call]
  else
    let target := c.mutationSequence
    let c := { c with flushTimer := false }.flushNextBatch options
    { c with fenceWaiters := c.fenceWaiters ++ [FenceWaiter.mk call target] }

/-! ## Replies -/

/-- The sequence number of the last entry of a batch, or the one before. -/
def lastSequence (pending : Pending M) : ℕ :=
  match pending.entries.getLast? with
  | some entry => max c.committedMutationSequence entry.sequence
  | none => c.committedMutationSequence

/-- The batch in flight was applied. -/
def handleSuccess (pending : Pending M) : Client M :=
  let c := { c with
    committedMutationSequence := c.lastSequence pending, inFlight := none, inFlightBytes := 0 }
  let c := c.updateBackpressure options
  let c := if 0 < c.getQueueLength then c.scheduleFlush else c
  c.resolveIdleWaitersIfReady.resolveFenceWaiters

/-- The batch in flight was not applied: it is sent again, or goes back to the queue. -/
def handleError (pending : Pending M) : Client M :=
  if pending.attempts ≤ options.batchRetryLimit && !c.failure then { c with retryTimer := true }
  else
    let c := { c with
      inFlight := none
      inFlightBytes := 0
      queue := pending.entries ++ c.queued
      queueHead := 0
      queueBytes := c.queueBytes + pending.bytes }
    c.handleWorkerFailure.updateBackpressure options

def handleReply (batch : ℕ) (success : Bool) : Client M :=
  match c.inFlight with
  | some pending =>
    if pending.batch = batch then
      if success then c.handleSuccess options pending else c.handleError options pending
    else c
  | none => c

end Client

/-! ## Client and store -/

/-- What the worker does with a batch: it commits it, commits it and still fails, or fails. -/
inductive Outcome where
  | commits
  | commitsAndFails
  | fails

/-- The store with its mutations in the order in which they were committed, and the identifiers of
the batches that it has applied. -/
structure Store (M : Type) where
  committed : List M := []
  batches : List ℕ := []

def Store.applyBatch {M : Type} (store : Store M) (request : Request M) : Store M :=
  if request.batch ∈ store.batches then store
  else ⟨store.committed ++ request.mutations, store.batches ++ [request.batch]⟩

/-- A client, its store and what is under way between them. -/
structure System (M : Type) where
  client : Client M := {}
  /-- The replies that have not reached the client. -/
  replies : List (ℕ × Bool) := []
  store : Store M := {}
  enqueued : List M := []
  /-- How many mutations had been enqueued at each call of `fence`. -/
  fenceCalls : List ℕ := []
  drainCalls : ℕ := 0
  /-- All notices so far. -/
  trace : List Notice := []

/-- What happens to the system. -/
inductive Event (M : Type) where
  | enqueue (mutation : M)
  | flushTimer
  | retryTimer
  | serve (outcome : Outcome)
  | reply
  | fence
  | drain
  /-- The worker stops with an error. -/
  | workerFailure

namespace System

variable {M : Type} (options : Options) (estimate : M → ℕ)

/-- The worker handles the first request. -/
def serve (outcome : Outcome) (s : System M) : System M :=
  match s.client.requests with
  | [] => s
  | request :: rest =>
    let s := { s with client := { s.client with requests := rest } }
    match outcome with
    | .commits =>
      { s with
        store := s.store.applyBatch request
        replies := s.replies ++ [(request.batch, true)] }
    | .commitsAndFails =>
      { s with
        store := s.store.applyBatch request, replies := s.replies ++ [(request.batch, false)] }
    | .fails => { s with replies := s.replies ++ [(request.batch, false)] }

def reply (s : System M) : System M :=
  match s.replies with
  | [] => s
  | (batch, success) :: rest =>
    { s with replies := rest, client := s.client.handleReply options batch success }

/-- The worker stops: what it has not replied to fails, also if the reply is under way. -/
def workerFailure (s : System M) : System M :=
  let pending := s.replies.map Prod.fst ++ s.client.requests.map Request.batch
  { s with
    client := { s.client.handleWorkerFailure with requests := [] }
    replies := pending.map fun batch => (batch, false) }

/-- What an event does, before its notices are added to the trace. -/
def handle (event : Event M) (s : System M) : System M :=
  match event with
  | .enqueue mutation =>
    { s with
      client := s.client.enqueue options mutation (estimate mutation)
      enqueued := if s.client.refuses options then s.enqueued else s.enqueued ++ [mutation] }
  | .flushTimer => { s with client := s.client.fireFlush options }
  | .retryTimer => { s with client := s.client.fireRetry }
  | .serve outcome => s.serve outcome
  | .reply => s.reply options
  | .fence =>
    { s with
      client := s.client.fence options s.fenceCalls.length
      fenceCalls := s.fenceCalls ++ [s.enqueued.length] }
  | .drain =>
    { s with client := s.client.drain options s.drainCalls, drainCalls := s.drainCalls + 1 }
  | .workerFailure => s.workerFailure

def step (s : System M) (event : Event M) : System M :=
  let s := handle options estimate event { s with client := { s.client with notices := [] } }
  { s with trace := s.trace ++ s.client.notices }

def run (events : List (Event M)) : System M := events.foldl (step options estimate) {}

end System

/-! ## What the queue promises -/

def Client.inFlightEntries {M : Type} (c : Client M) : List (Entry M) :=
  match c.inFlight with
  | some pending => pending.entries
  | none => []

def bytesOf {M : Type} (entries : List (Entry M)) : ℕ := (entries.map Entry.bytes).sum

/-- A notice of a watermark, as the state that it announces -/
def Notice.pauses? : Notice → Option Bool
  | .pause => some true
  | .resume => some false
  | _ => none

/-- Pause, resume, pause, and so on -/
def alternating (n : ℕ) : List Bool := (List.range n).map fun i => i % 2 == 0

/-- What holds of the client and the store after an event. -/
structure System.Delivers {M : Type} (s : System M) : Prop where
  /-- The store has a first part of what was enqueued, and nothing twice. -/
  in_order : ∃ n, s.store.committed = s.enqueued.take n
  /-- The client knows of no more commits than there are, and holds all the rest. -/
  no_loss : ∃ n ≤ s.store.committed.length,
    s.enqueued.drop n = (s.client.inFlightEntries ++ s.client.queued).map Entry.mutation
  queue_bytes : s.client.queueBytes = bytesOf s.client.queued
  in_flight_bytes : s.client.inFlightBytes = bytesOf s.client.inFlightEntries
  fences : ∀ call, .fenceResolved call ∈ s.client.notices →
    ∃ n, s.fenceCalls[call]? = some n ∧ n ≤ s.store.committed.length
  drains : ∀ call, .drainResolved call ∈ s.client.notices →
    s.client.queued = [] ∧ s.client.inFlight = none
  alternates : ∃ n, s.trace.filterMap Notice.pauses? = alternating n

end Bmp.PersistenceClient
