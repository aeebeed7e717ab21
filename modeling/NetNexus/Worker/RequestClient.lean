import Mathlib.Algebra.Order.Ring.Int

/-!
# Clients of workers

`RequestWorkerClient` and `RequestProcessClient` post requests to a worker, which answers them by
their message ids. The workers of a client are numbered in the order in which they are started.
What was posted and how promises were settled is recorded. If `postMessage` throws, the promise is
rejected; the entry that `RequestWorkerClient` then leaves in `pending` is left out, as nothing can
settle its promise again.
-/

namespace RequestClient

/-- How a promise was settled. -/
inductive Outcome where
  | resolved
  /-- The answer is not a success. -/
  | requestFailed
  | timeout
  | cancelled
  /-- The error that the worker reports. -/
  | error
  | exit
  | terminated
  /-- The error that `postMessage` throws. -/
  | postFailed
  deriving DecidableEq

/-- A client, with a record of what was posted to which worker and how promises were settled. -/
structure Client (ι : Type) where
  worker : Option ℕ := none
  pending : List ι := []
  closed : Bool := false
  exited : Bool := false
  /-- There is a `terminationPromise`. -/
  terminating : Bool := false
  started : ℕ := 0
  posted : List (ι × ℕ) := []
  settled : List (ι × Outcome) := []

/-- What happens to a client. The events of a worker carry its number. -/
inductive Event (ι : Type) where
  | start
  /-- `sendRequest` with the message id that it makes, for a signal that is aborted or not, and a
  request that `postMessage` throws at or not. -/
  | send (id : ι) (aborted thrown : Bool)
  | message (id : ι) (success : Bool)
  | timeout (id : ι)
  | abort (id : ι)
  | error (worker : ℕ)
  | exit (worker : ℕ) (code : ℤ)
  | terminate
  /-- The promise that `terminate` waits for is settled. -/
  | terminated (ok : Bool)

variable {ι : Type}

namespace Client

variable (c : Client ι) (id : ι)

/-- `resolve` or `reject` of a request -/
def settle (outcome : Outcome) : Client ι :=
  { c with settled := c.settled ++ [(id, outcome)] }

/-- `failAll` with the error of every pending request -/
def failAll (outcome : Outcome) : Client ι :=
  { c with pending := [], settled := c.settled ++ c.pending.map fun id => (id, outcome) }

/-- A new worker takes the place of the current one. -/
def spawn : Client ι :=
  { c with worker := some c.started, started := c.started + 1 }

/-- The request is posted to the current worker and pending, unless `postMessage` throws. -/
def post (thrown : Bool) : Client ι :=
  match c.worker with
  | some worker =>
    if thrown then c.settle id .postFailed
    else { c with pending := c.pending ++ [id], posted := c.posted ++ [(id, worker)] }
  | none => c

/-- The end of a worker. A client that is closed does not mind if the code is 0. -/
def handleExit (code : ℤ) : Client ι :=
  if !c.closed || code ≠ 0 then c.failAll .exit else c

variable [DecidableEq ι] (c : Client ι) (id : ι)

/-- A request that is still pending is settled. -/
def finish (outcome : Outcome) : Client ι :=
  if id ∈ c.pending then { c.settle id outcome with pending := c.pending.erase id } else c

/-- The answer to a request -/
def handleMessage (success : Bool) : Client ι :=
  c.finish id (if success then .resolved else .requestFailed)

/-- The end of a request by its timeout or its signal -/
def rejectAndCancel (outcome : Outcome) : Client ι := c.finish id outcome

end Client

open Client

namespace RequestWorkerClient

variable (c : Client ι)

def start : Client ι :=
  if c.worker.isSome then c else { c.spawn with closed := false }

/-- Where `postMessage` throws, the source leaves an entry behind whose promise is settled. -/
def sendRequest (id : ι) (aborted thrown : Bool) : Client ι :=
  let c := start c
  if c.closed then c.settle id .terminated
  else if aborted then c.settle id .cancelled
  else c.post id thrown

/-- The listener of `exit`, which does not ask which worker it is of. -/
def onExit (code : ℤ) : Client ι := { c with worker := none }.handleExit code

def terminate : Client ι :=
  { c.failAll .terminated with closed := true, worker := none }

/-- What the client makes of an event. -/
def step [DecidableEq ι] (c : Client ι) : Event ι → Client ι
  | .start => start c
  | .send id aborted thrown => sendRequest c id aborted thrown
  | .message id success => c.handleMessage id success
  | .timeout id => c.rejectAndCancel id .timeout
  | .abort id => c.rejectAndCancel id .cancelled
  | .error _ => c.failAll .error
  | .exit _ code => onExit c code
  | .terminate => terminate c
  | .terminated _ => c

end RequestWorkerClient

namespace RequestProcessClient

variable (c : Client ι)

/-- A client that is closed or has exited throws, and nothing changes. -/
def start : Client ι :=
  if c.worker.isSome || c.closed || c.exited then c else c.spawn

def sendRequest (id : ι) (aborted thrown : Bool) : Client ι :=
  if c.closed then c.settle id .terminated
  else if c.exited then c.settle id .exit
  else if aborted then c.settle id .cancelled
  else (start c).post id thrown

/-- The listener of `exit`, which forgets the process only if it is the one that has ended. -/
def onExit (worker : ℕ) (code : ℤ) : Client ι :=
  { c with exited := true, worker := if c.worker = some worker then none else c.worker }.handleExit
    code

def terminate : Client ι :=
  if c.terminating then c
  else { c.failAll .terminated with closed := true, terminating := true }

/-- What `terminate` does when the process has ended, or could not be ended. -/
def onTerminated (ok : Bool) : Client ι :=
  if !c.terminating then c
  else if ok then { c with worker := none }
  else { c with terminating := false }

/-- What the client makes of an event. -/
def step [DecidableEq ι] (c : Client ι) : Event ι → Client ι
  | .start => start c
  | .send id aborted thrown => sendRequest c id aborted thrown
  | .message id success => c.handleMessage id success
  | .timeout id => c.rejectAndCancel id .timeout
  | .abort id => c.rejectAndCancel id .cancelled
  | .error _ => c.failAll .error
  | .exit worker code => onExit c worker code
  | .terminate => terminate c
  | .terminated ok => onTerminated c ok

end RequestProcessClient

/-! ## Runs -/

/-- Message ids are distinct, and only workers that were started have events. -/
def Client.Admits (c : Client ι) (sent : List ι) : Event ι → Prop
  | .send id _ _ => id ∉ sent
  | .error worker | .exit worker _ => worker < c.started
  | _ => True

/-- The request that the event makes, if any. -/
def Event.sent : Event ι → List ι
  | .send id _ _ => [id]
  | _ => []

/-- The clients that the events can lead to, with the requests that were made. -/
inductive Reach (step : Client ι → Event ι → Client ι) : List ι → Client ι → Prop
  | nil : Reach step [] {}
  | step {sent : List ι} {c : Client ι} {e : Event ι} :
      Reach step sent c → c.Admits sent e → Reach step (e.sent ++ sent) (step c e)

/-- The event may settle the request. -/
def Client.Owns (c : Client ι) : Event ι → ι → Prop
  | .send id aborted thrown, id' => id' = id ∧ (aborted ∨ thrown ∨ c.closed ∨ c.exited)
  | .message id _, id' | .timeout id, id' | .abort id, id' => id' = id
  | .error worker, id' | .exit worker _, id' => (id', worker) ∈ c.posted
  | .terminate, _ => True
  | .start, _ | .terminated _, _ => False

/-- The worker that reports an error or its end. -/
def Event.reporter : Event ι → Option ℕ
  | .error worker | .exit worker _ => some worker
  | _ => none

/-- An event settles only what it owns, and that of another worker than the current one has no
effect on the latter. -/
structure Fair (c : Client ι) (e : Event ι) (c' : Client ι) : Prop where
  owned : ∀ s ∈ c'.settled, s ∈ c.settled ∨ c.Owns e s.1
  late : ∀ worker current, e.reporter = some worker → c.worker = some current →
    current ≠ worker → c'.worker = c.worker ∧ c'.pending = c.pending

/-- Errors and ends of workers arrive while no other worker is there. -/
def Client.Timely (c : Client ι) : Event ι → Prop
  | .error worker => (∀ current, c.worker = some current → current = worker) ∨ c.pending = []
  | .exit worker _ => ∀ current, c.worker = some current → current = worker
  | _ => True

/-- Promises are settled once at most, and when the worker exits or the client is terminated. -/
structure SettlesOnce (step : Client ι → Event ι → Client ι) (sent : List ι) (c : Client ι) :
    Prop where
  once : (c.settled.map Prod.fst).Nodup
  kept : ∀ e, c.settled <+: (step c e).settled
  terminate : ∀ id ∈ sent, id ∈ (step c .terminate).settled.map Prod.fst
  exit : ∀ worker code id, (id, worker) ∈ c.posted →
    id ∈ (step c (.exit worker code)).settled.map Prod.fst

end RequestClient
