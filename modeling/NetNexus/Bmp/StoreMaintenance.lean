import NetNexus.Bmp.StoreBatch

/-!
# Queries and maintenance of the BMP store

The number of routes from the counters, the two variants of `purgeStaleRoutes`, `purgeSource` and
`sweep` of `bmpPersistenceStore`. The order of texts, which only decides in which order scopes are
swept, is a parameter.
-/

namespace Bmp.Store

variable {κ : Type}

/-- A limit of the options, or its default. -/
def positiveInteger (value : Option ℤ) (fallback maximum : ℕ) : ℕ :=
  match value with
  | some n => if n < 1 then fallback else min n.toNat maximum
  | none => fallback

/-- `Number.MAX_SAFE_INTEGER`. -/
def maxSafeInteger : ℕ := 9007199254740991

/-- A column has the value that a filter asks for, if it asks for one. -/
def passes {α : Type} [DecidableEq α] (filter column : Option α) : Bool :=
  match filter with
  | some value => column = some value
  | none => true

/-- `ORDER BY` a number. -/
def orderBy {α : Type} (rank : α → ℕ) (rows : List α) : List α :=
  rows.insertionSort fun a b => rank a ≤ rank b

variable [DecidableEq κ]

/-- `buildRouteStateSql`, over the columns that current routes and counters share. -/
def Bucket.isStale (b : Bucket κ) (s : ScopeRow κ) : Bool :=
  b.explicitState = .stale || s.state.isStale || b.connection ≠ s.lastConnection ||
    b.ribEpoch < s.currentEpoch

/-! ## The number of routes -/

/-- The condition `active` of `queryRouteCountFromCounters`. -/
def Bucket.isActive (b : Bucket κ) (s : ScopeRow κ) : Bool :=
  !s.state.isStale && b.explicitState ≠ .stale && b.connection = s.lastConnection &&
    s.currentEpoch ≤ b.ribEpoch

/-- The filter of routes by their state. -/
inductive RouteStateFilter where
  | all
  | active
  | stale
  | other
  deriving DecidableEq

/-- A query for routes. The filters on identities and texts, for which no counter helps, are one
flag here. -/
structure RouteQuery (κ : Type) where
  filtersIdentity : Bool
  sourceId : Option κ
  scopeId : Option κ
  ownerKey : Option κ
  scopeKind : Option ScopeKind
  afi : Option ℕ
  safi : Option ℕ
  ribType : Option κ
  scopeState : Option ScopeState
  connectionId : Option κ
  routeState : RouteStateFilter

namespace Db

variable (db : Db κ)

/-- The source of the scope is there, and the scope passes the filters. -/
def selectsScope (query : RouteQuery κ) (s : ScopeRow κ) : Bool :=
  (db.sources.find? s.source).isSome && passes query.sourceId (some s.source) &&
    passes query.scopeId (some s.id) && passes query.ownerKey s.ownerKey &&
    passes query.scopeKind (some s.kind) && passes query.afi (some s.afi) &&
    passes query.safi (some s.safi) && passes query.ribType (some s.ribType) &&
    passes query.scopeState (some s.state)

/-- The connection is the one that the query asks for, which has to be there. -/
def selectsConnection (query : RouteQuery κ) (connection : κ) : Bool :=
  match query.connectionId with
  | some id => (db.connections.find? id).isSome && connection = id
  | none => true

/-- What a counter adds to the number of routes. -/
def aggregate (query : RouteQuery κ) (s : ScopeRow κ) (counter : Bucket κ × ℤ) : ℤ :=
  match query.routeState with
  | .all => counter.2
  | .active => if counter.1.isActive s then counter.2 else 0
  | .stale => if counter.1.isActive s then 0 else counter.2
  | .other => 0

/-- The count by the counters, if they can tell it. -/
def queryRouteCountFromCounters (query : RouteQuery κ) : Option ℤ :=
  if query.filtersIdentity then none
  else
    some (((db.scopes.rows.filter (db.selectsScope query)).flatMap fun s =>
      (db.counts.rows.filter fun counter =>
        counter.1.scope = s.id && db.selectsConnection query counter.1.connection).map
          (aggregate query s)).sum)

/-! ## Purging stale routes -/

/-- The place of the identity of a route in its table. -/
def routePk (r : CurrentRoute κ) : ℕ :=
  db.identities.rows.findIdx fun identity => identity.id = r.key.route

def scopePk (scope : κ) : ℕ := db.scopes.rows.findIdx fun s => s.id = scope

def connectionPk (connection : κ) : ℕ :=
  db.connections.rows.findIdx fun row => row.id = connection

/-- `deleteRoute` for rows one by one, each with its objects for the collector. -/
def deleteRows (rows : List (CurrentRoute κ)) : Db κ :=
  rows.foldl
    (fun db r => (db.deleteRoute r.key).addGcCandidates
      ((db.routes.find? r.key).toList.flatMap CurrentRoute.gcCandidates)) db

end Db

/-- The routes that are to be purged. -/
structure PurgeQuery (κ : Type) where
  sourceId : Option κ
  scopeId : Option κ
  ownerKey : Option κ
  connectionId : Option κ
  scopeKind : Option ScopeKind
  ribType : Option κ
  afi : Option ℕ
  safi : Option ℕ
  scopeState : Option ScopeState
  routeId : Option κ
  ribEpochBefore : Option ℤ
  prefixExact : Option κ
  prefixLength : Option ℕ
  routeLimit : Option ℤ
  gcLimit : Option ℤ
  includeDetails : Bool
  hasCursor : Bool

/-- The rows that a purge deleted, and whether there are more. -/
structure PurgeResult (κ : Type) where
  rows : List (CurrentRoute κ)
  hasMore : Bool

/-- `selectBmpRoutePartitions`, as a condition on a partition of the manifest. -/
def selectBmpRoutePartitions (scopeKind : Option ScopeKind) (afi safi : Option ℕ) :
    Except FamilyError (RoutePartition → Bool) := do
  if let some afi := afi then if 0xffff < afi then throw (.afi afi)
  if let some safi := safi then if 0xff < safi then throw (.safi safi)
  let family := fun (p : RoutePartition) => routeFamilies.find? fun family => family.1 = p.familyId
  return fun p => passes scopeKind (some p.scopeKind) &&
    match afi, safi with
    | some afi, some safi => p.familyId = routeFamilyId afi safi
    | afi, safi => (family p).all fun family =>
      passes afi (some family.2.1) && passes safi (some family.2.2)

namespace Db

variable (db : Db κ) (query : PurgeQuery κ)

/-- `resolveQueryPartitions`, as a condition on a partition of the manifest. -/
def resolveQueryPartitions :
    Except (Failure κ) (RoutePartition → Bool) :=
  match query.scopeId with
  | some scopeId => .ok fun p => (db.scopes.find? scopeId).any fun s => s.partition = p
  | none => do
    let identity := query.routeId.bind db.identities.find?
    if query.routeId.isSome && identity.isNone then return fun _ => false
    let selected ← (selectBmpRoutePartitions query.scopeKind
      ((identity.map Identity.afi).or query.afi)
      ((identity.map Identity.safi).or query.safi)).mapError .family
    let present := fun (p : RoutePartition) => db.scopes.rows.any fun s =>
      s.partition = p && (db.sources.find? s.source).isSome &&
        passes query.sourceId (some s.source) && passes query.ownerKey s.ownerKey &&
        passes query.ribType (some s.ribType) && passes query.scopeState (some s.state)
    if query.sourceId.isSome || query.ownerKey.isSome || query.ribType.isSome ||
        query.scopeState.isSome then
      return fun p => selected p && present p
    else return selected

/-- The scopes that a purge looks at, in their order. -/
def purgeScopes : List (ScopeRow κ) :=
  db.scopes.rows.filter fun s =>
    (db.sources.find? s.source).isSome && passes query.sourceId (some s.source) &&
      passes query.scopeId (some s.id) && passes query.ownerKey s.ownerKey &&
      passes query.connectionId
        ((db.connections.find? s.lastConnection).map ConnectionRow.id) &&
      passes query.scopeKind (some s.kind) && passes query.ribType (some s.ribType) &&
      passes query.afi (some s.afi) && passes query.safi (some s.safi)

/-- The filters on a prefix, which need the identity of the route. -/
def selectsPrefix (r : CurrentRoute κ) : Bool :=
  if query.prefixExact.isSome || query.prefixLength.isSome then
    (db.identities.find? r.key.route).any fun identity =>
      passes query.prefixExact identity.pathPrefix &&
        passes query.prefixLength identity.prefixLength
  else true

/-- A stale row of the scope that a detailed purge may delete. -/
def isPurgeable (s : ScopeRow κ) (r : CurrentRoute κ) : Bool :=
  r.key.scope = s.id && r.key.partition = s.partition && r.bucket.isStale s &&
    query.ribEpochBefore.all (fun before => r.ribEpoch < before) && db.selectsPrefix query r

/-- The candidates in a scope, at most `limit`. With a bound on the epoch, the counters tell
whether all candidates fit; they are then read counter by counter. -/
def purgeCandidates (s : ScopeRow κ) (limit : ℕ) :
    List (CurrentRoute κ) :=
  let ordered :=
    (orderBy db.routePk (db.routes.rows.filter (db.isPurgeable query s))).take limit
  match query.prefixExact, query.ribEpochBefore with
  | none, some before =>
    let buckets := db.counts.rows.filter fun counter =>
      counter.1.scope = s.id && counter.1.isStale s && counter.1.ribEpoch < before && 0 < counter.2
    let eligible := (buckets.map Prod.snd).sum
    if eligible = 0 then []
    else if eligible ≤ limit then
      buckets.foldl
        (fun found counter => found ++ (db.routes.rows.filter fun r =>
          db.isPurgeable query s r && r.bucket = counter.1).take (limit - found.length)) []
    else ordered
  | _, _ => ordered

/-- The candidates in all scopes, one more than the limit if there are as many. -/
def selectPurge (partitions : RoutePartition → Bool)
    (routeLimit : ℕ) : List (CurrentRoute κ) :=
  (db.purgeScopes query).foldl
    (fun selected s =>
      if routeLimit < selected.length || !partitions s.partition then selected
      else selected ++ db.purgeCandidates query s (routeLimit + 1 - selected.length)) []

/-- The row can be read with all that its details are joined with. -/
def hasDetails (r : CurrentRoute κ) : Bool :=
  (db.identities.find? r.key.route).isSome && (db.payloads.find? r.payload).isSome &&
    (db.scopes.find? r.key.scope).any (fun s => (db.sources.find? s.source).isSome) &&
    (db.connections.find? r.connection).isSome

/-- The purge that reports the routes. -/
def purgeStaleRoutesDetailed :
    Except (Failure κ) (Db κ × PurgeResult κ) := do
  let routeLimit := positiveInteger query.routeLimit 2000 20000
  let gcLimit := positiveInteger query.gcLimit 2000 50000
  let partitions ← db.resolveQueryPartitions query
  let selected := db.selectPurge query partitions routeLimit
  let candidates := (orderBy (fun r => db.scopePk r.key.scope) (orderBy db.routePk selected)).take
    routeLimit
  let rows := candidates.filter db.hasDetails
  if rows.length ≠ min selected.length routeLimit then throw .purgeCandidatesChanged
  else
    let deleted := db.deleteRows rows
    return (if rows.isEmpty then deleted else deleted.collectGarbage gcLimit,
      ⟨rows, routeLimit < selected.length⟩)

/-- The stale counters of the compact variant with their scopes, in its order. -/
def purgeBuckets : List (ScopeRow κ × Bucket κ) :=
  (db.purgeScopes query).flatMap fun s =>
    (orderBy (fun b => db.connectionPk b.connection) <|
      ((db.counts.rows.filter fun counter => counter.1.scope = s.id && counter.1.isStale s &&
        query.ribEpochBefore.all (fun before => counter.1.ribEpoch < before) &&
          0 < counter.2).map Prod.fst).insertionSort
        fun b b' => b.ribEpoch < b'.ribEpoch ∨
          b.ribEpoch = b'.ribEpoch ∧ (b.explicitState = .active ∨ b'.explicitState = .stale)).map
      fun b => (s, b)

/-- The row is stale in the scope that it refers to. -/
def isStaleRoute (r : CurrentRoute κ) : Bool :=
  (db.scopes.find? r.key.scope).any fun s => r.bucket.isStale s

/-- The stale routes, bucket by bucket, until there are too many. -/
def selectCompactPurge (routeLimit : ℕ) :
    List (CurrentRoute κ) :=
  (db.purgeBuckets query).foldl
    (fun selected bucket =>
      if routeLimit < selected.length then selected
      else selected ++ (db.routes.rows.filter fun r =>
        r.key.partition = bucket.1.partition && r.bucket = bucket.2 && db.selectsPrefix query r &&
          db.isStaleRoute r).take (routeLimit + 1 - selected.length)) []

/-- `purgeStaleRoutesCompact`. The candidates are checked again before the deletion. -/
def purgeStaleRoutesCompact :
    Except (Failure κ) (Db κ × PurgeResult κ) := do
  if query.hasCursor then throw .cursorNotAccepted
  let routeLimit := positiveInteger query.routeLimit 2000 20000
  let gcLimit := positiveInteger query.gcLimit 2000 50000
  let selected := (db.selectCompactPurge query routeLimit).filter fun r =>
    db.routes.find? r.key = some r && db.isStaleRoute r
  let pathPk := fun r => db.routes.rows.findIdx fun r' => r'.key = r.key
  let candidates := (orderBy (fun r => r.key.partition.partitionId) (orderBy pathPk selected)).take
    routeLimit
  let marked := db.addGcCandidates
    (candidates.map (fun r => .identity r.key.route) ++
      candidates.map (fun r => .payload r.payload) ++
      candidates.flatMap fun r => r.attr.toList.map .attribute)
  let purged := db.routes.rows.filter fun r => candidates.contains r && db.isStaleRoute r
  if purged.length ≠ min selected.length routeLimit then throw .purgeCandidatesChanged
  else
    let deleted := marked.deleteRoutes fun r => candidates.contains r && db.isStaleRoute r
    return (if purged.isEmpty then deleted else deleted.collectGarbage gcLimit,
      ⟨purged, routeLimit < selected.length⟩)

/-- Stale routes of a scope or an owner are purged. -/
def purgeStaleRoutes :
    Except (Failure κ) (Db κ × PurgeResult κ) :=
  if query.scopeId.isNone && query.ownerKey.isNone then .error .purgeTargetRequired
  else if query.includeDetails then db.purgeStaleRoutesDetailed query
  else db.purgeStaleRoutesCompact query

/-! ## Purging a source -/

/-- The scope is one of the source. -/
def isScopeOf (sourceId scope : κ) : Bool :=
  db.scopes.rows.any fun s => s.source = sourceId && s.id = scope

/-- The route is one of the source. -/
def isRouteOf (sourceId : κ) (r : CurrentRoute κ) : Bool :=
  (db.scopes.rows.any fun s => s.source = sourceId && s.partition = r.key.partition) &&
    db.isScopeOf sourceId r.key.scope

/-- The sample is one of the source. -/
def isSampleOf (sourceId : κ) (sample : Sample κ) : Bool :=
  sample.source = sourceId || sample.scope.any (db.isScopeOf sourceId) ||
    db.connections.rows.any fun row => row.source = sourceId && row.id = sample.connection

/-- The source with all that depends on it is deleted. -/
def deleteSource (sourceId : κ) : Db κ :=
  let purged := (db.deleteRoutes (db.isRouteOf sourceId)).addGcCandidates
    ((db.routes.rows.filter (db.isRouteOf sourceId)).flatMap CurrentRoute.gcCandidates)
  { purged with
    latest := db.latest.filter fun report => !(report.source = sourceId ||
      db.samples.rows.any fun sample =>
        db.isSampleOf sourceId sample && sample.sampleId = report.sampleId)
    samples := db.samples.filter fun sample => !db.isSampleOf sourceId sample
    counts := purged.counts.filter fun counter => !db.isScopeOf sourceId counter.1.scope
    scopes := db.scopes.filter fun s => s.source ≠ sourceId
    connections := db.connections.filter fun row => row.source ≠ sourceId
    sources := db.sources.delete sourceId }

/-- A source is deleted, and the garbage after it. -/
def purgeSource (sourceId : κ) : Db κ :=
  if (db.sources.find? sourceId).isNone then db
  else
    let collected := (db.deleteSource sourceId).collectGarbage maxSafeInteger
    { collected with
      batches := if collected.sources.rows.isEmpty then .empty else collected.batches }

end Db

/-! ## The sweep -/

/-- What a sweep is for. -/
inductive SweepMode (κ : Type) where
  | lifecycle (sourceId : Option κ)
  | maintenance (purgeExpiredStaleRoutes : Bool)

/-- The options of a sweep. -/
structure SweepOptions (κ : Type) where
  mode : SweepMode κ
  routeLimit : Option ℤ
  eventLimit : Option ℤ
  auxiliaryLimit : Option ℤ
  staleBeforeMs : ℤ
  eventsBeforeMs : ℤ
  refreshTimeoutBeforeMs : ℤ

/-- How many rows a sweep removed. -/
structure SweepResult where
  routes : ℕ
  statistics : ℕ
  batches : ℕ
  attributes : ℕ
  payloads : ℕ
  identities : ℕ
  hasMore : Bool

namespace Db

variable (db : Db κ)

/-- `@sourcePk IS NULL OR source_pk = @sourcePk`; a source that is not there matches nothing. -/
def sweepsSource (mode : SweepMode κ) (source : κ) : Bool :=
  match mode with
  | .lifecycle (some sourceId) => (db.sources.find? sourceId).isSome && source = sourceId
  | _ => true

/-- `single_open_connections`: the open connection of a source, if there is only one. -/
def singleOpenConnection (mode : SweepMode κ) (source : κ) :
    Option (ConnectionRow κ) :=
  match db.connections.rows.filter fun row =>
    row.isOpen && db.sweepsSource mode row.source && row.source = source with
  | [row] => some row
  | _ => none

/-- `reconnect_candidates`: when the connection was opened that replaces the one of the scope. -/
def reconnectStartedMs (mode : SweepMode κ) (s : ScopeRow κ) : Option ℤ := do
  let previous ← db.connections.find? s.lastConnection
  let replacement ← db.singleOpenConnection mode s.source
  if s.state.isStale && s.staleReason ≠ some .reconnectRefreshTimeout && !previous.isOpen &&
      previous.generation < replacement.generation then
    some replacement.openedAtMs
  else none

/-- The scope has been stale for too long. -/
def isExpired (options : SweepOptions κ) (s : ScopeRow κ) : Bool :=
  match options.mode with
  | .maintenance true => s.state.isStale && s.staleSinceMs.any (· ≤ options.staleBeforeMs)
  | _ => false

/-- All routes of the scope are swept, not only those that the owner did not send. -/
def purgesAll (options : SweepOptions κ) (s : ScopeRow κ) : Bool :=
  isExpired options s ||
    (db.reconnectStartedMs options.mode s).any (· ≤ options.refreshTimeoutBeforeMs)

/-- The sweep has to look at the scope. -/
def sweepsScope (options : SweepOptions κ) (s : ScopeRow κ) : Bool :=
  (db.sources.find? s.source).isSome && db.sweepsSource options.mode s.source &&
    (s.cleanupPendingEpoch.any (s.currentEpoch ≤ ·) ||
      s.state = .syncing && s.refreshStartedMs.any (· ≤ options.refreshTimeoutBeforeMs) ||
      db.purgesAll options s)

/-- The route is an old one of the scope. -/
def isSwept (purgeAll : Bool) (s : ScopeRow κ) (r : CurrentRoute κ) : Bool :=
  r.key.scope = s.id && r.key.partition = s.partition &&
    (purgeAll || r.ribEpoch < s.currentEpoch || r.connection ≠ s.lastConnection)

/-- Old routes of a scope are deleted, up to the limit. -/
def sweepScope (routeLimit : ℕ) (swept : Db κ × ℕ) (scope : ScopeRow κ × Bool) : Db κ × ℕ :=
  if routeLimit ≤ swept.2 then swept
  else
    let rows := (orderBy swept.1.routePk
      (swept.1.routes.rows.filter (isSwept scope.2 scope.1))).take (routeLimit - swept.2)
    (swept.1.deleteRows rows, swept.2 + rows.length)

/-- A counter tells that the scope has routes that its owner did not send in the current epoch. -/
def hasOldRoutes (s : ScopeRow κ) : Bool :=
  db.counts.rows.any fun counter => counter.1.scope = s.id &&
    (counter.1.connection ≠ s.lastConnection || counter.1.ribEpoch < s.currentEpoch)

/-- Scopes without old routes are clean again. -/
def finalizeCleanup (mode : SweepMode κ) : Db κ :=
  { db with
    scopes := db.scopes.modify
      (fun s =>
        if s.cleanupPendingEpoch.any (s.currentEpoch ≤ ·) && db.sweepsSource mode s.source &&
            !db.hasOldRoutes s then { s with cleanupPendingEpoch := none }
        else s)
      fun s => by split <;> rfl }

/-- Refreshes that took too long are over. -/
def finalizeRefresh (options : SweepOptions κ) : Db κ :=
  { db with
    scopes := db.scopes.modify
      (fun s =>
        if s.state = .syncing && db.sweepsSource options.mode s.source &&
            s.refreshStartedMs.any (· ≤ options.refreshTimeoutBeforeMs) && !db.hasOldRoutes s then
          { s with state := .ready, staleReason := some .refreshTimeout, refreshStartedMs := none }
        else s)
      fun s => by split <;> rfl }

/-- Scopes whose router came back without a refresh are over. -/
def finalizeReconnect (options : SweepOptions κ) : Db κ :=
  { db with
    scopes := db.scopes.modify
      (fun s =>
        if s.state.isStale && db.sweepsSource options.mode s.source &&
            s.staleReason ≠ some .reconnectRefreshTimeout &&
            ((db.connections.find? s.lastConnection).any fun previous => !previous.isOpen &&
              (db.singleOpenConnection options.mode previous.source).any fun replacement =>
                previous.generation < replacement.generation &&
                  replacement.openedAtMs ≤ options.refreshTimeoutBeforeMs) &&
            !db.counts.rows.any fun counter => counter.1.scope = s.id then
          { s with staleReason := some .reconnectRefreshTimeout }
        else s)
      fun s => by split <;> rfl }

/-- The samples that a maintenance sweep deletes. -/
def oldSamples (eventsBeforeMs : ℤ) (auxiliaryLimit : ℕ) : List (Sample κ) :=
  ((db.samples.rows.filter fun sample => sample.observedAtMs ≤ eventsBeforeMs &&
    !db.latest.rows.any fun report => report.sampleId = sample.sampleId).insertionSort
      fun a b => a.observedAtMs < b.observedAtMs ∨
        a.observedAtMs = b.observedAtMs ∧ a.sampleId ≤ b.sampleId).take auxiliaryLimit

/-- The oldest batches, up to the limit. -/
def oldBatches (eventsBeforeMs : ℤ) (auxiliaryLimit : ℕ) : List (BatchRow κ) :=
  ((db.batches.rows.filter fun batch => batch.createdAtMs ≤ eventsBeforeMs).insertionSort
    fun a b => a.createdAtMs ≤ b.createdAtMs).take auxiliaryLimit

/-- What a maintenance sweep does and a lifecycle sweep does not. -/
def sweepAuxiliary (eventsBeforeMs : ℤ) (auxiliaryLimit : ℕ) : Db κ :=
  let samples := db.oldSamples eventsBeforeMs auxiliaryLimit
  let batches := db.oldBatches eventsBeforeMs auxiliaryLimit
  { db with
    samples := db.samples.filter fun sample => !samples.contains sample
    batches := db.batches.filter fun batch => !batches.contains batch }

/-- Old routes are deleted, scope by scope. -/
def sweepRoutes (le : κ → κ → Bool) (options : SweepOptions κ) : Db κ × ℕ :=
  (((db.scopes.rows.filter (db.sweepsScope options)).insertionSort fun s s' => le s.id s'.id).map
    fun s => (s, db.purgesAll options s)).foldl
      (sweepScope (positiveInteger options.routeLimit 2000 20000)) (db, 0)

/-- Old routes, statistics, batches and garbage are deleted. -/
def sweep (le : κ → κ → Bool) (options : SweepOptions κ) :
    Except (Failure κ) (Db κ × SweepResult) :=
  let routeLimit := positiveInteger options.routeLimit 2000 20000
  let eventLimit := positiveInteger options.eventLimit 5000 50000
  let auxiliaryLimit := positiveInteger options.auxiliaryLimit eventLimit 50000
  let (deleted, routes) := db.sweepRoutes le options
  let finalized :=
    ((deleted.finalizeCleanup options.mode).finalizeRefresh options).finalizeReconnect
    options
  match options.mode with
  | .lifecycle none => .error .lifecycleSourceRequired
  | .lifecycle (some _) => .ok (finalized, ⟨routes, 0, 0, 0, 0, 0, routeLimit ≤ routes⟩)
  | .maintenance _ =>
    let trimmed := finalized.sweepAuxiliary options.eventsBeforeMs auxiliaryLimit
    let collected := trimmed.collectGarbage auxiliaryLimit
    let statistics := (finalized.oldSamples options.eventsBeforeMs auxiliaryLimit).length
    let batches := (finalized.oldBatches options.eventsBeforeMs auxiliaryLimit).length
    let attributes := trimmed.attributes.rows.length - collected.attributes.rows.length
    let payloads := trimmed.payloads.rows.length - collected.payloads.rows.length
    let identities := trimmed.identities.rows.length - collected.identities.rows.length
    .ok (collected, ⟨routes, statistics, batches, attributes, payloads, identities,
      collected.hasGcCandidates || routeLimit ≤ routes || auxiliaryLimit ≤ statistics ||
        auxiliaryLimit ≤ batches || auxiliaryLimit ≤ attributes || auxiliaryLimit ≤ payloads ||
        auxiliaryLimit ≤ identities⟩)

end Db

/-! ## Calls -/

/-- A call of the store that writes. -/
inductive Call (κ : Type) where
  | applyBatch (batch : Batch κ)
  | purgeStaleRoutes (query : PurgeQuery κ)
  | purgeSource (sourceId : κ)
  | sweep (options : SweepOptions κ)

namespace Db

/-- The database after a transaction, which is rolled back if it fails. -/
def commit {α : Type} (db : Db κ) (result : Except (Failure κ) (Db κ × α)) : Db κ :=
  match result with
  | .ok x => x.1
  | .error _ => db

/-- A call of the store. One that fails is rolled back. -/
def call (le : κ → κ → Bool) (db : Db κ) : Call κ → Db κ
  | .applyBatch batch => db.commit (db.applyBatch batch)
  | .purgeStaleRoutes query => db.commit (db.purgeStaleRoutes query)
  | .purgeSource sourceId => db.purgeSource sourceId
  | .sweep options => db.commit (db.sweep le options)

/-- The calls, one after the other. -/
def run (le : κ → κ → Bool) (db : Db κ) (calls : List (Call κ)) : Db κ := calls.foldl (call le) db

end Db

end Bmp.Store
