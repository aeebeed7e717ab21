import Mathlib.Data.List.Sort
import NetNexus.Bmp.StoreSchema

/-!
# The statements of the BMP store

`prepareStatements` of `bmpPersistenceStore`: what each prepared statement does to the database.
-/

namespace Bmp.Store

variable {κ : Type}

/-- The row that `upsertSource` makes of the one that is there. -/
def Source.merge (old source : Source κ) : Source κ :=
  { old with
    remoteIp := source.remoteIp.or old.remoteIp
    sysName := source.sysName.or old.sysName
    sysDesc := source.sysDesc.or old.sysDesc
    metadataJson := source.metadataJson.or old.metadataJson }

/-- The row that `upsertConnection` makes of the one that is there. -/
def ConnectionRow.merge (old : ConnectionRow κ) (connection : Connection κ) (source : κ) :
    ConnectionRow κ :=
  { old with
    source := source
    localIp := connection.localIp.or old.localIp
    localPort := connection.localPort.or old.localPort
    remoteIp := connection.remoteIp.or old.remoteIp
    remotePort := connection.remotePort.or old.remotePort }

/-- The row that `upsertConnection` inserts. -/
def Connection.row (connection : Connection κ) (source : κ) (eventAtMs : ℤ) : ConnectionRow κ where
  id := connection.id
  source := source
  generation := connection.generation
  localIp := connection.localIp
  localPort := connection.localPort
  remoteIp := connection.remoteIp
  remotePort := connection.remotePort
  openedAtMs := connection.openedAtMs.getD eventAtMs
  closedAtMs := none
  closeReason := none
  isOpen := true
  lastSequence := 0

/-- A sequence never goes back. -/
def ConnectionRow.advance (row : ConnectionRow κ) (sequence : ℤ) : ConnectionRow κ :=
  if row.lastSequence < sequence then { row with lastSequence := sequence } else row

@[simp] theorem ConnectionRow.id_advance (row : ConnectionRow κ) (sequence : ℤ) :
    (row.advance sequence).id = row.id := by
  unfold advance
  split <;> rfl

variable [DecidableEq κ]

def ConnectionRow.advanceOf (connection : κ) (sequence : ℤ) (row : ConnectionRow κ) :
    ConnectionRow κ :=
  if row.id = connection then row.advance sequence else row

theorem ConnectionRow.id_advanceOf (connection : κ) (sequence : ℤ) (row : ConnectionRow κ) :
    (row.advanceOf connection sequence).id = row.id := by
  unfold advanceOf
  split <;> simp

/-- The parameters of `upsertScope`. -/
structure ScopeParams (κ : Type) where
  scope : Scope κ
  source : κ
  partition : RoutePartition
  connection : κ
  eventType : EventType κ
  reason : Option (Reason κ)
  eventAtMs : ℤ

namespace ScopeParams

variable (p : ScopeParams κ)

/-- A scope without a state is being filled. -/
def state : ScopeState := p.scope.state.getD .syncing

/-- When the scope became stale. -/
def staleSinceMs : Option ℤ :=
  if p.scope.state = some .stale ∨ p.scope.state = some .down then some p.eventAtMs else none

/-- When the refresh started. -/
def refreshStartedMs : Option ℤ :=
  if p.scope.state = some .syncing then some p.eventAtMs else none

/-- The refresh starts again. -/
def resetRefresh : Bool := p.eventType = .scopeOpen

/-- The refresh took too long. -/
def scopeTimeout : Bool := p.eventType = .scopeTimeout

end ScopeParams

/-- The parameters of `upsertRoute` -/
structure RouteParams (κ : Type) where
  key : RouteKey κ
  payload : κ
  attr : Option κ
  connection : κ
  epoch : ℤ
  sourceTimestampMs : Option ℤ
  sequence : ℤ

/-- The row has what the parameters say, and no later sequence number. -/
def RouteParams.describes (p : RouteParams κ) (r : CurrentRoute κ) : Bool :=
  r.key = p.key && r.payload = p.payload && r.attr = p.attr && r.connection = p.connection &&
    r.ribEpoch = p.epoch && r.explicitState = .active && r.lastSequence ≤ p.sequence

/-- The row that is written. -/
def RouteParams.row (p : RouteParams κ) : CurrentRoute κ where
  key := p.key
  payload := p.payload
  attr := p.attr
  connection := p.connection
  ribEpoch := p.epoch
  explicitState := .active
  sourceTimestampMs := p.sourceTimestampMs
  lastSequence := p.sequence

namespace Db

/-! ## Sources and connections -/

variable (db : Db κ)

/-- What the source does not name is kept. -/
def upsertSource (source : Source κ) : Db κ :=
  { db with
    sources := match db.sources.find? source.id with
      | some old => db.sources.upsert (old.merge source)
      | none => db.sources.upsert source }

/-- What the connection does not name is kept. -/
def upsertConnection (connection : Connection κ) (source : κ) (eventAtMs : ℤ) : Db κ :=
  { db with
    connections := match db.connections.find? connection.id with
      | some old => db.connections.upsert (old.merge connection source)
      | none => db.connections.upsert (connection.row source eventAtMs) }

/-- The sequence of a connection goes on. -/
def advanceConnectionSequence (connection : κ) (sequence : ℤ) : Db κ :=
  { db with
    connections := db.connections.modify (ConnectionRow.advanceOf connection sequence)
      (ConnectionRow.id_advanceOf connection sequence) }

/-- The connection is closed. -/
def closeConnection (connection : κ) (eventAtMs : ℤ) (reason : Reason κ) : Db κ :=
  { db with
    connections := db.connections.modify
      (fun row =>
        if row.id = connection then
          { row with isOpen := false, closedAtMs := some eventAtMs, closeReason := some reason }
        else row)
      fun row => by split <;> rfl }

/-- `SELECT connection_generation`, with zero for a connection that is not there. -/
def generationOf (connection : κ) : ℤ :=
  match db.connections.find? connection with
  | some row => row.generation
  | none => 0

/-- `SELECT connection_state`, with closed for a connection that is not there. -/
def isOpen (db : Db κ) (connection : κ) : Bool :=
  match db.connections.find? connection with
  | some row => row.isOpen
  | none => false

/-! ## Scopes -/

/-- The scopes of the connection are down. -/
def closeConnectionScopes (connection : κ) (eventAtMs : ℤ) (reason : Reason κ) :
    Db κ :=
  { db with
    scopes := db.scopes.modify
      (fun scope =>
        if scope.lastConnection = connection then
          { scope with
            state := .down
            staleReason := some reason
            staleSinceMs := scope.staleSinceMs.or (some eventAtMs)
            refreshStartedMs := none
            cleanupPendingEpoch := none }
        else scope)
      fun scope => by split <;> rfl }

/-- The connection takes the scope over from an older or a closed one. -/
def replacesScopeConnection (scope : ScopeRow κ) (connection : κ) : Bool :=
  scope.lastConnection ≠ connection &&
    (db.generationOf scope.lastConnection < db.generationOf connection ||
      !db.isOpen scope.lastConnection && db.isOpen connection)

/-- The row that `upsertScope` inserts. -/
def newScope (p : ScopeParams κ) : ScopeRow κ where
  id := p.scope.id
  source := p.source
  partition := p.partition
  identity := p.scope.identity
  kind := p.scope.kind
  ownerKey := p.scope.ownerKey
  vrfName := p.scope.vrfName
  afi := p.scope.afi
  safi := p.scope.safi
  ribType := p.scope.ribType
  currentEpoch := p.scope.epoch
  eorEpoch := none
  state := p.state
  staleReason := p.reason
  staleSinceMs := p.staleSinceMs
  refreshStartedMs := p.refreshStartedMs
  cleanupPendingEpoch := none
  lastConnection := p.connection

/-- The connection has the scope or takes it over. -/
def acceptsScopeConnection (scope : ScopeRow κ) (connection : κ) : Bool :=
  scope.lastConnection = connection || db.replacesScopeConnection scope connection

/-- The write is not behind what the scope has reached. -/
def acceptsScopeProgress (scope : ScopeRow κ) (p : ScopeParams κ) : Bool :=
  (db.replacesScopeConnection scope p.connection ||
      scope.lastConnection = p.connection && scope.currentEpoch ≤ p.scope.epoch) &&
    !(p.scopeTimeout && scope.currentEpoch ≤ scope.eorEpoch.getD (-1))

/-- The row that `upsertScope` makes of the one that is there. -/
def updatedScope (scope : ScopeRow κ) (p : ScopeParams κ) : ScopeRow κ :=
  let replaces := db.replacesScopeConnection scope p.connection
  let same : Bool := scope.lastConnection = p.connection
  let accepts := db.acceptsScopeConnection scope p.connection
  let progress := db.acceptsScopeProgress scope p
  { scope with
    currentEpoch :=
      if replaces then p.scope.epoch
      else if same then max scope.currentEpoch p.scope.epoch
      else scope.currentEpoch
    eorEpoch :=
      if replaces || same && (scope.currentEpoch < p.scope.epoch ||
          p.resetRefresh && p.scope.epoch = scope.currentEpoch) then none
      else scope.eorEpoch
    state := if progress then p.state else scope.state
    staleReason :=
      if progress && p.state.isStale then p.reason.or scope.staleReason
      else if progress then p.reason
      else scope.staleReason
    staleSinceMs :=
      if progress && p.state.isStale && scope.state.isStale then
        scope.staleSinceMs.or p.staleSinceMs
      else if progress then p.staleSinceMs
      else scope.staleSinceMs
    refreshStartedMs :=
      if !progress then scope.refreshStartedMs
      else if p.state ≠ .syncing then none
      else if replaces || scope.currentEpoch < p.scope.epoch || p.resetRefresh ||
          scope.state ≠ .syncing then p.refreshStartedMs
      else scope.refreshStartedMs.or p.refreshStartedMs
    cleanupPendingEpoch :=
      if !progress then scope.cleanupPendingEpoch
      else if replaces || scope.currentEpoch < p.scope.epoch || p.resetRefresh ||
          p.state.isStale then none
      else scope.cleanupPendingEpoch
    lastConnection := if accepts then p.connection else scope.lastConnection
    vrfName := if accepts then p.scope.vrfName.or scope.vrfName else scope.vrfName }

/-- A scope is added, or changed if it is the same one. -/
def upsertScope (p : ScopeParams κ) : Db κ :=
  { db with
    scopes := match db.scopes.find? p.scope.id with
      | some scope =>
        if scope.partition = p.partition ∧ scope.source = p.source then
          db.scopes.upsert (db.updatedScope scope p)
        else db.scopes
      | none => db.scopes.upsert (newScope p) }

/-- The end of the RIB has come. -/
def markScopeEor (scopeId : κ) (epoch : ℤ) (connection : κ) : Db κ :=
  { db with
    scopes := db.scopes.modify
      (fun scope =>
        if scope.id = scopeId ∧ scope.lastConnection = connection ∧ scope.currentEpoch = epoch then
          { scope with
            eorEpoch := some (max (scope.eorEpoch.getD (-1)) epoch)
            state := .ready
            staleReason := none
            staleSinceMs := none
            refreshStartedMs := none
            cleanupPendingEpoch :=
              if scope.eorEpoch.getD (-1) < epoch then some epoch
              else scope.cleanupPendingEpoch }
        else scope)
      fun scope => by split <;> rfl }

/-- The end of the RIB is not waited for any more. -/
def markScopeTimeout (scopeId : κ) (epoch : ℤ) (connection : κ) : Db κ :=
  { db with
    scopes := db.scopes.modify
      (fun scope =>
        if scope.id = scopeId ∧ scope.lastConnection = connection ∧ scope.currentEpoch = epoch ∧
            scope.eorEpoch.getD (-1) < scope.currentEpoch then
          { scope with
            state := .ready
            staleReason := some .refreshTimeout
            staleSinceMs := none
            refreshStartedMs := none
            cleanupPendingEpoch := some epoch }
        else scope)
      fun scope => by split <;> rfl }

/-! ## Shared rows -/

/-- A legacy key is kept if there is no other. -/
def upsertRouteIdentity (identity : Identity κ) : Db κ :=
  { db with
    identities := match db.identities.find? identity.id with
      | some old =>
        db.identities.upsert
          { old with legacyRouteKey := identity.legacyRouteKey.or old.legacyRouteKey }
      | none => db.identities.upsert identity }

/-- The payload is there. -/
def upsertRoutePayload (routeJson : κ) : Db κ :=
  { db with payloads := db.payloads.insert routeJson }

/-- The attributes are there. -/
def upsertAttribute (attr : Attribute κ) : Db κ :=
  { db with attributes := db.attributes.insert attr }

/-- The objects may be garbage. -/
def addGcCandidates (objects : List (SharedObject κ)) : Db κ :=
  { db with gcCandidates := objects.foldl Table.insert db.gcCandidates }

/-- `GC_KIND` and the place of the row in its table, by which candidates are ordered. -/
def gcRank : SharedObject κ → ℕ × ℕ
  | .identity id => (1, db.identities.rows.findIdx fun identity => identity.id = id)
  | .payload json => (2, db.payloads.rows.findIdx fun payload => payload = json)
  | .attribute id => (3, db.attributes.rows.findIdx fun attr => attr.id = id)

/-- The candidates that `collectGarbage` looks at. -/
def gcWork (limit : ℕ) : List (SharedObject κ) :=
  (db.gcCandidates.rows.insertionSort fun a b =>
    (db.gcRank a).1 < (db.gcRank b).1 ∨
      (db.gcRank a).1 = (db.gcRank b).1 ∧ (db.gcRank a).2 ≤ (db.gcRank b).2).take limit

/-- A current route refers to the object (`bmp_current_route_refs`). -/
def isReferenced (object : SharedObject κ) : Bool :=
  db.routes.rows.any fun r => r.RefersTo object

/-- Candidates that no route refers to are deleted. -/
def collectGarbage (limit : ℕ) : Db κ :=
  let work := db.gcWork limit
  let garbage := fun object => work.contains object && !db.isReferenced object
  { db with
    attributes := db.attributes.filter fun attr => !garbage (.attribute attr.id)
    payloads := db.payloads.filter fun payload => !garbage (.payload payload)
    identities := db.identities.filter fun identity => !garbage (.identity identity.id)
    gcCandidates := db.gcCandidates.filter fun object => !work.contains object }

/-- `hasMore` of a collection. -/
def hasGcCandidates : Bool := !db.gcCandidates.rows.isEmpty

/-! ## Current routes -/

/-- The scope is there, owned by the connection and in the epoch. -/
def ownsScope (partition : RoutePartition) (scopeId connection : κ) (epoch : ℤ) :
    Bool :=
  match db.scopes.find? scopeId with
  | some scope =>
    scope.partition = partition && scope.lastConnection = connection && scope.currentEpoch = epoch
  | none => false

/-- The metadata of the route that is described, if its scope is owned. -/
def refreshRow (p : RouteParams κ) (r : CurrentRoute κ) : CurrentRoute κ :=
  if p.describes r && db.ownsScope p.key.partition p.key.scope p.connection p.epoch then
    { r with sourceTimestampMs := p.sourceTimestampMs, lastSequence := p.sequence }
  else r

theorem key_refreshRow (db : Db κ) (p : RouteParams κ) (r : CurrentRoute κ) :
    (db.refreshRow p r).key = r.key := by
  unfold refreshRow
  split <;> rfl

/-- The metadata of one route are written. -/
def refreshRouteMetadata (p : RouteParams κ) : Db κ :=
  db.touchRoutes (db.refreshRow p) (db.key_refreshRow p)

/-- The database, and whether a row was written. -/
def upsertRoute (p : RouteParams κ) : Except (Failure κ) (Db κ × Bool) :=
  if !db.ownsScope p.key.partition p.key.scope p.connection p.epoch then .ok (db, false)
  else if !db.validateInsert p.key then .error .identityNotOfPartition
  else
    match db.routes.find? p.key with
    | some old =>
      if old.connection ≠ p.connection ∨
          old.ribEpoch ≤ p.epoch ∧ old.lastSequence ≤ p.sequence then
        .ok (db.writeRoute p.row, true)
      else .ok (db, false)
    | none => .ok (db.writeRoute p.row, true)

/-- One route is deleted. -/
def deleteRoute (key : RouteKey κ) : Db κ := db.deleteRoutes fun r => r.key = key

/-- The database, and the row that was deleted. -/
def withdrawRoute (key : RouteKey κ) (connection : κ) (epoch : ℤ) :
    Db κ × Option (CurrentRoute κ) :=
  if db.ownsScope key.partition key.scope connection epoch then
    (db.deleteRoute key, db.routes.find? key)
  else (db, none)

/-! ## Batches and statistics -/

/-- The batch is remembered. -/
def insertBatch (batch : Batch κ) : Db κ :=
  { db with
    batches := db.batches.insert ⟨batch.batchId, batch.createdAtMs, batch.mutations.length⟩ }

/-- The report is the latest one, unless there is a later one. -/
def latestStatistics (report : LatestReport κ) : Table (LatestReport.key (κ := κ)) :=
  match db.latest.find? report.key with
  | some old =>
    if old.observedAtMs < report.observedAtMs ∨
        report.observedAtMs = old.observedAtMs ∧ old.sampleId < report.sampleId then
      db.latest.upsert report
    else db.latest
  | none => db.latest.upsert report

/-- `insertStatistics`, and `upsertLatestStatistics` for a report that says what it is about. -/
def insertStatistics (m : Mutation κ) : Db κ :=
  let sampleId := db.sampleSequence + 1
  { db with
    sampleSequence := sampleId
    samples := db.samples.upsert
      { sampleId := sampleId
        source := m.source.id
        connection := m.connection.id
        scope := m.scope.map Scope.id
        report := m.statistics
        observedAtMs := m.eventAtMs
        sourceTimestampMs := m.sourceTimestampMs }
    latest := match m.statistics.identity with
      | some identity => db.latestStatistics ⟨m.source.id, identity, sampleId, m.eventAtMs⟩
      | none => db.latest }

end Db

end Bmp.Store
