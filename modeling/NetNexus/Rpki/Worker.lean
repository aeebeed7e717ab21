import NetNexus.Rpki.Store

/-!
# The RPKI worker

The state that `RpkiWorker` keeps beside its store (router keys, the cache serial it advertises
and the history of recent changes) and the requests of its storage queue. The queue runs one
request at a time. A request either fails and leaves everything as it was, or it changes the data
and records the change under a new serial.
-/

namespace Rpki

/-- A router key of the worker. -/
structure RouterKey where
  ski : String
  asn : String
  spki : String
  deriving DecidableEq, Repr

def RouterKey.makeKey (ski asn : String) : String := ski ++ "|" ++ asn

/-- The key of an entry of `rpkiRouterKeyMap`. -/
def RouterKey.key (rk : RouterKey) : String := makeKey rk.ski rk.asn

abbrev RouterKeyMap := Table RouterKey.key

/-- What is done with a record. -/
inductive Action where
  | announce
  | withdraw
  deriving DecidableEq, Repr

/-- A recorded change of the data. -/
inductive Operation where
  | roa (action : Action) (data : Roa)
  | routerKey (action : Action) (data : RouterKey)
  | aspa (action : Action) (data : Aspa)
  | aspaReplace (oldData newData : Aspa)
  deriving DecidableEq, Repr

/-! ## The serial history -/

/-- The operations of one serial. -/
structure HistoryEntry where
  serial : UInt32
  operations : List Operation
  bytes : ℕ

def maxSerialHistoryEntries : ℕ := 1024

def maxSerialHistoryOperations : ℕ := 10000

def maxSerialHistoryBytes : ℕ := 16 * 1024 * 1024

/-- How much the history may hold: entries, operations of all entries and bytes of all entries. -/
structure HistoryLimits where
  entries : ℕ
  operations : ℕ
  bytes : ℕ

/-- The limits that the constructor sets. -/
def maxSerialHistory : HistoryLimits :=
  ⟨maxSerialHistoryEntries, maxSerialHistoryOperations, maxSerialHistoryBytes⟩

/-- `serialHistory` with the two counters that are kept in step with it. -/
structure SerialHistory where
  entries : List HistoryEntry
  operationCount : ℕ
  bytes : ℕ
  operationCount_eq : operationCount = (entries.map fun e => e.operations.length).sum
  bytes_eq : bytes = (entries.map HistoryEntry.bytes).sum

namespace SerialHistory

/-- `clearSerialHistory`. -/
def empty : SerialHistory := ⟨[], 0, 0, List.sum_nil.symm, List.sum_nil.symm⟩

def push (h : SerialHistory) (entry : HistoryEntry) : SerialHistory where
  entries := h.entries ++ [entry]
  operationCount := h.operationCount + entry.operations.length
  bytes := h.bytes + entry.bytes
  operationCount_eq := by simp [h.operationCount_eq]
  bytes_eq := by simp [h.bytes_eq]

/-- Drop the oldest entry. -/
def shift (h : SerialHistory) : SerialHistory :=
  match he : h.entries with
  | [] => h
  | removed :: entries =>
    { entries
      operationCount := h.operationCount - removed.operations.length
      bytes := h.bytes - removed.bytes
      operationCount_eq := by
        rw [h.operationCount_eq, he]
        simp
      bytes_eq := by
        rw [h.bytes_eq, he]
        simp }

/-- The condition of the loop of `trimSerialHistory` -/
def OverLimit (limits : HistoryLimits) (h : SerialHistory) : Prop :=
  h.entries.length > limits.entries ∨ h.operationCount > limits.operations ∨ h.bytes > limits.bytes

instance (limits : HistoryLimits) (h : SerialHistory) : Decidable (h.OverLimit limits) := by
  unfold OverLimit
  infer_instance

/-- The loop of `trimSerialHistory`; an empty history is within the limits, so it runs at most
once for each entry. -/
def trimLoop (limits : HistoryLimits) : ℕ → SerialHistory → SerialHistory
  | 0, h => h
  | fuel + 1, h => if h.OverLimit limits then trimLoop limits fuel h.shift else h

/-- `trimSerialHistory` -/
def trim (limits : HistoryLimits) (h : SerialHistory) : SerialHistory :=
  trimLoop limits h.entries.length h

end SerialHistory

/-! ## The worker -/

/-- The worker with its serial and its history. -/
structure Worker where
  store : Store
  routerKeys : RouterKeyMap
  cacheSerial : UInt32
  history : SerialHistory

/-- The state after `startRpki`: the serial is the one of the store and no change is known. -/
def Worker.start (store : Store) (routerKeys : RouterKeyMap) : Worker where
  store
  routerKeys
  cacheSerial := store.cacheSerial
  history := .empty

def isSerialNewer (candidate reference : UInt32) : Bool :=
  let distance := candidate - reference
  distance ≠ 0 ∧ distance < 0x80000000

namespace Worker

variable (estimateSerialOperationsBytes : List Operation → ℕ) (w : Worker)

/-- The worker's `bumpCacheSerial`. -/
def bumpCacheSerial : Worker :=
  { w with
    store := w.store.bumpCacheSerial
    cacheSerial := w.store.bumpCacheSerial.cacheSerial }

/-- The result of `resolveMutationSerial` -/
structure ResolvedSerial where
  serial : UInt32
  forceInvalidate : Bool

/-- The newest of the worker's, the store's and the provided serial. -/
def newestSerial (provided : Option UInt32) : UInt32 :=
  let serial :=
    if isSerialNewer w.store.cacheSerial w.cacheSerial then w.store.cacheSerial else w.cacheSerial
  match provided with
  | some p => if isSerialNewer p serial then p else serial
  | none => serial

/-- `resolveMutationSerial`. A serial that is still the worker's is bumped. -/
def resolveMutationSerial (provided : Option UInt32) : ResolvedSerial × Worker :=
  let previousSerial := w.cacheSerial
  let providedIsNext := provided.all (· = previousSerial + 1)
  let bumped := if w.newestSerial provided = previousSerial then w.bumpCacheSerial else w
  let serial :=
    if w.newestSerial provided = previousSerial then bumped.cacheSerial
    else w.newestSerial provided
  ({ serial, forceInvalidate := !providedIsNext || serial ≠ previousSerial + 1 }, bumped)

/-- `recordSerialDeltaAndNotify` without the notification of the sessions. -/
def recordSerialDelta (operations : List Operation) (provided : Option UInt32)
    (invalidate : Bool) : Worker :=
  let previousSerial := w.cacheSerial
  let (resolved, w) := w.resolveMutationSerial provided
  let operationBytes := estimateSerialOperationsBytes operations
  let invalidated := invalidate || resolved.forceInvalidate ||
    operations.length > maxSerialHistoryOperations || operationBytes > maxSerialHistoryBytes ||
    resolved.serial ≠ previousSerial + 1
  let history :=
    if invalidated then SerialHistory.empty
    else if operations.length > 0 then
      (w.history.push
        { serial := resolved.serial, operations, bytes := operationBytes }).trim maxSerialHistory
    else w.history
  { w with cacheSerial := resolved.serial, history }

/-- The loop of `getDeltaOperationsSince` over the entries from the first one that is needed. -/
def collect : UInt32 → List HistoryEntry → Option (List Operation)
  | _, [] => some []
  | expectedSerial, entry :: entries =>
    if entry.serial ≠ expectedSerial then none
    else (collect (expectedSerial + 1) entries).map (entry.operations ++ ·)

def getDeltaOperationsSince (requestedSerial : UInt32) : Option (List Operation) :=
  let currentSerial := w.cacheSerial
  if requestedSerial = currentSerial then some []
  else
    let expectedFirstSerial := requestedSerial + 1
    match w.history.entries.findIdx? (·.serial = expectedFirstSerial) with
    | none => none
    | some firstIndex =>
      let entries := w.history.entries.drop firstIndex
      if entries.getLast?.map HistoryEntry.serial ≠ some currentSerial then none
      else collect expectedFirstSerial entries

end Worker

/-! ## Requests -/

/-- An import: what the import worker reads from the file, or why it fails before its commit. -/
inductive ImportTask where
  | roaJson (roas : Except String (List Roa)) (limit : Option ℕ)
  | aspaJson (aspas : Except String (List Aspa)) (limit : Option ℕ)

/-- What the commit of an import makes of the store. The ROA import inserts at most `limit`
records, the ASPA import stops reading after `limit` of them. -/
def ImportTask.commit (store : Store) : ImportTask → Except String (Store.BatchChanged × Store)
  | .roaJson roas limit => roas.map fun roas => store.commitRoaImport roas limit
  | .aspaJson aspas limit => aspas.map fun aspas =>
      store.commitAspaImport (limit.elim aspas aspas.take)

/-- The data-changing requests of the storage queue. -/
inductive Request where
  | addRoa (roa : Except String Roa)
  | addRoaBatch (roas : List (Except String Roa)) (limit : Option ℕ)
  | deleteRoa (roa : Except String Roa)
  | deleteRoaBatch
  | addRouterKey (rk : RouterKey)
  | deleteRouterKey (ski asn : String)
  | addAspa (aspa : Except String Aspa)
  | addAspaBatch (aspas : List (Except String Aspa))
  | deleteAspa (customerAsn : Except String UInt32)
  | deleteAspaBatch
  | importJson (task : ImportTask)

namespace Worker

variable (estimateSerialOperationsBytes : List Operation → ℕ) (w : Worker)

/-- The end of a bulk request: if anything changed, the history is of no use any more. -/
def recordBulk (result : Store.BatchChanged × Store) : Worker :=
  if result.1.changed > 0 then
    { w with store := result.2 }.recordSerialDelta estimateSerialOperationsBytes []
      (some result.1.cacheSerial) true
  else
    { w with store := result.2 }

def addRoa (roa : Except String Roa) : Except String Worker := do
  let (result, store) ← w.store.addRoa roa
  if result.inserted = 0 then
    throw "RPKI ROA配置已经存在"
  return { w with store }.recordSerialDelta estimateSerialOperationsBytes
    [.roa .announce result.current] (some result.cacheSerial) false

def addRoaBatch (roas : List (Except String Roa)) (limit : Option ℕ) : Except String Worker := do
  let result ← w.store.addRoaBatch roas limit
  return w.recordBulk estimateSerialOperationsBytes result

def deleteRoa (roa : Except String Roa) : Except String Worker := do
  let (result, store) ← w.store.deleteRoa roa
  match result.previous with
  | none => throw "RPKI ROA配置不存在"
  | some previous =>
    return { w with store }.recordSerialDelta estimateSerialOperationsBytes
      [.roa .withdraw previous] (some result.cacheSerial) false

def addRouterKey (rk : RouterKey) : Except String Worker :=
  match h : w.routerKeys.find? rk.key with
  | some _ => .error "RouterKey已存在"
  | none =>
    .ok ({ w with routerKeys := w.routerKeys.append rk h }.recordSerialDelta
      estimateSerialOperationsBytes [.routerKey .announce rk] none false)

def deleteRouterKey (ski asn : String) : Except String Worker :=
  match w.routerKeys.find? (RouterKey.makeKey ski asn) with
  | none => .error "RouterKey不存在"
  | some rk =>
    .ok ({ w with routerKeys := w.routerKeys.delete (RouterKey.makeKey ski asn) }.recordSerialDelta
      estimateSerialOperationsBytes [.routerKey .withdraw rk] none false)

def addAspa (aspa : Except String Aspa) : Except String Worker := do
  let (result, store) ← w.store.upsertAspa aspa
  if result.changed = 0 then
    return { w with store }
  let operation : Operation := match result.previous with
    | some previous => .aspaReplace previous result.current
    | none => .aspa .announce result.current
  return { w with store }.recordSerialDelta estimateSerialOperationsBytes [operation]
    (some result.cacheSerial) false

def addAspaBatch (aspas : List (Except String Aspa)) : Except String Worker := do
  let result ← w.store.upsertAspaBatch aspas
  return w.recordBulk estimateSerialOperationsBytes result

def deleteAspa (customerAsn : Except String UInt32) : Except String Worker := do
  let (result, store) ← w.store.deleteAspa customerAsn
  match result.previous with
  | none => throw "ASPA不存在"
  | some previous =>
    return { w with store }.recordSerialDelta estimateSerialOperationsBytes
      [.aspa .withdraw previous] (some result.cacheSerial) false

/-- One request of the storage queue. -/
def handle : Request → Except String Worker
  | .addRoa roa => w.addRoa estimateSerialOperationsBytes roa
  | .addRoaBatch roas limit => w.addRoaBatch estimateSerialOperationsBytes roas limit
  | .deleteRoa roa => w.deleteRoa estimateSerialOperationsBytes roa
  | .deleteRoaBatch => .ok (w.recordBulk estimateSerialOperationsBytes w.store.clearRoas)
  | .addRouterKey rk => w.addRouterKey estimateSerialOperationsBytes rk
  | .deleteRouterKey ski asn => w.deleteRouterKey estimateSerialOperationsBytes ski asn
  | .addAspa aspa => w.addAspa estimateSerialOperationsBytes aspa
  | .addAspaBatch aspas => w.addAspaBatch estimateSerialOperationsBytes aspas
  | .deleteAspa customerAsn => w.deleteAspa estimateSerialOperationsBytes customerAsn
  | .deleteAspaBatch => .ok (w.recordBulk estimateSerialOperationsBytes w.store.clearAspas)
  | .importJson task => (task.commit w.store).map (w.recordBulk estimateSerialOperationsBytes)

/-- The state after a request, which a failed request leaves as it was. -/
def step (request : Request) : Worker :=
  match w.handle estimateSerialOperationsBytes request with
  | .ok w' => w'
  | .error _ => w

def run (requests : List Request) : Worker :=
  requests.foldl (step estimateSerialOperationsBytes) w

/-- All that can happen to the history: a start, a request, a change of the shared store by others
and the notice of a change. -/
inductive Change where
  | start (store : Store) (routerKeys : RouterKeyMap)
  | request (request : Request)
  | shared (store : Store)
  | datasetChanged (operations : List Operation) (cacheSerial : Option UInt32) (invalidate : Bool)

def change : Change → Worker
  | .start store routerKeys => start store routerKeys
  | .request request => w.step estimateSerialOperationsBytes request
  | .shared store => { w with store }
  | .datasetChanged operations cacheSerial invalidate =>
    w.recordSerialDelta estimateSerialOperationsBytes operations cacheSerial invalidate

def changed (changes : List Change) : Worker :=
  changes.foldl (change estimateSerialOperationsBytes) w

end Worker

end Rpki
