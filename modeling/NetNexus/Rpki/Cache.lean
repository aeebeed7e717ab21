import NetNexus.Rpki.Dataset
import NetNexus.Rpki.Pdu

/-!
# The cache as its clients see it

The worker together with an import whose separate thread has committed to the database while the
worker has not recorded it yet, and the queries of the clients that come in between. A Reset Query
is answered from a read snapshot of the database and the worker's router keys, a Serial Query from
the worker's history. Either response ends with a serial.
-/

namespace Rpki

/-! ## Responses -/

/-- What a response consists of. -/
inductive Content where
  | snapshot (roas : List Roa) (routerKeys : List RouterKey) (aspas : List Aspa)
  | delta (since : UInt32) (operations : List Operation)

/-- A response that ends with an End of Data. -/
structure Response where
  version : ProtocolVersion
  serial : UInt32
  content : Content

/-! ## The cache -/

/-- The worker and an import between its two steps. -/
structure Cache where
  worker : Worker
  /-- The result of an import that is committed but not recorded. -/
  importing : Option Store.BatchChanged

/-- What happens to the cache. -/
inductive Event where
  | request (request : Request)
  | commitImport (task : ImportTask)
  | recordImport
  | resetQuery (version : ProtocolVersion)
  | serialQuery (version : ProtocolVersion) (serial : UInt32)

namespace Cache

variable (estimateSerialOperationsBytes : List Operation → ℕ) (c : Cache)

def start (store : Store) (routerKeys : RouterKeyMap) : Cache where
  worker := Worker.start store routerKeys
  importing := none

/-- `createDataSnapshot`: what one committed state of the database and the router keys hold. -/
def createDataSnapshot (version : ProtocolVersion) : Response where
  version
  serial := c.worker.store.cacheSerial
  content := .snapshot c.worker.store.roas.rows c.worker.routerKeys.rows c.worker.store.aspas.rows

/-- The answer of `handleSerialQuery`, unless it is a Cache Reset. -/
def handleSerialQuery (version : ProtocolVersion) (serial : UInt32) : Option Response :=
  (c.worker.getDeltaOperationsSince serial).map fun operations =>
    { version, serial := c.worker.cacheSerial, content := .delta serial operations }

/-- One event. The storage queue waits for an import, so neither a request nor another import runs
while one is open. -/
def step : Event → Cache × Option Response
  | .request request =>
    match c.importing with
    | none => ({ c with worker := c.worker.step estimateSerialOperationsBytes request }, none)
    | some _ => (c, none)
  | .commitImport task =>
    match c.importing, task.commit c.worker.store with
    | none, .ok (result, store) =>
      ({ worker := { c.worker with store }, importing := some result }, none)
    | _, _ => (c, none)
  | .recordImport =>
    match c.importing with
    | none => (c, none)
    | some result =>
      ({ worker := c.worker.recordBulk estimateSerialOperationsBytes (result, c.worker.store)
         importing := none }, none)
  | .resetQuery version => (c, some (c.createDataSnapshot version))
  | .serialQuery version serial => (c, c.handleSerialQuery version serial)

def responses (c : Cache) : List Event → List Response
  | [] => []
  | event :: events =>
    let (c', response) := c.step estimateSerialOperationsBytes event
    response.toList ++ c'.responses events

/-- How often the serial of the database changes during the events. -/
def changes (c : Cache) : List Event → ℕ
  | [] => 0
  | event :: events =>
    let c' := (c.step estimateSerialOperationsBytes event).1
    (if c'.worker.store.cacheSerial = c.worker.store.cacheSerial then 0 else 1) +
      c'.changes events

end Cache

/-! ## What a response leaves -/

/-- What a protocol version can carry: router keys from version 1 on, ASPAs from version 2 on. -/
def Operation.carried (version : ProtocolVersion) : Operation → Bool
  | .roa _ _ => true
  | .routerKey _ _ => version ≠ .v0
  | .aspa _ _ => version = .v2
  | .aspaReplace _ _ => version = .v2

def Dataset.carried (version : ProtocolVersion) (d : Dataset) : Dataset where
  roas := d.roas
  aspas := if version = .v2 then d.aspas else ∅
  routerKeys := if version ≠ .v0 then d.routerKeys else ∅

/-- The dataset that a response leaves with a client. A delta is applied to what some response of
the same version with the requested serial has left. -/
inductive Leaves (responses : List Response) : Response → Dataset → Prop where
  | snapshot (version : ProtocolVersion) (serial : UInt32) (roas : List Roa)
      (routerKeys : List RouterKey) (aspas : List Aspa) :
      Leaves responses ⟨version, serial, .snapshot roas routerKeys aspas⟩
        (Dataset.carried version ⟨{x | x ∈ roas}, {x | x ∈ aspas}, {x | x ∈ routerKeys}⟩)
  | delta (version : ProtocolVersion) (serial : UInt32) (operations : List Operation)
      {base : Response} {d : Dataset} (mem : base ∈ responses) (same : base.version = version)
      (left : Leaves responses base d) :
      Leaves responses ⟨version, serial, .delta base.serial operations⟩
        (d.applyAll (operations.filter (Operation.carried version)))

end Rpki
