import NetNexus.Bmp.StoreStatements

/-!
# Applying a batch of mutations

`applyBatch` and `applyMutation` of `bmpPersistenceStore`, with the caches that live as long as a
batch: what was already written of sources, connections and scopes, the shared rows and current
routes that were read ahead, and the refreshes that are put off to the end of the batch.
-/

namespace Bmp.Store

variable {κ : Type}

/-! ## Deltas -/

/-- A current route with the shared rows that it refers to, as a delta shows it. -/
structure Projection (κ : Type) where
  scope : κ
  identity : Identity κ
  routeJson : κ
  attrId : Option κ
  attrJson : Option κ
  ribEpoch : ℤ
  deriving DecidableEq

/-- What a mutation does to a route. -/
inductive Classification where
  | announce
  | replace
  | refresh
  | upsertNoop
  | withdraw
  | purge
  | withdrawNoop
  deriving DecidableEq

/-- What is reported of a mutation. -/
structure Delta (κ : Type) where
  mutation : Mutation κ
  classification : Classification
  projectionChanged : Bool
  previous : Option (Projection κ)
  current : Option (Projection κ)
  deriving DecidableEq

/-! ## Caches -/

/-- The columns of a current route that tell whether a path is identical. -/
structure RouteRefs (κ : Type) where
  payload : κ
  attr : Option κ
  connection : κ
  ribEpoch : ℤ
  explicitState : ExplicitState
  deriving DecidableEq

/-- What is compared to find out whether a route changes. -/
def CurrentRoute.refs (r : CurrentRoute κ) : RouteRefs κ :=
  ⟨r.payload, r.attr, r.connection, r.ribEpoch, r.explicitState⟩

/-- What was written of a source last. -/
structure SourceSignature (κ : Type) where
  identityJson : κ
  remoteIp : Option κ
  sysName : Option κ
  sysDesc : Option κ
  metadataJson : Option κ
  deriving DecidableEq

/-- What is compared to skip a write. -/
def Source.signature (source : Source κ) : SourceSignature κ :=
  ⟨source.identityJson, source.remoteIp, source.sysName, source.sysDesc, source.metadataJson⟩

/-- What was written of a connection last. -/
structure ConnectionSignature (κ : Type) where
  source : κ
  generation : ℤ
  localIp : Option κ
  localPort : Option ℕ
  remoteIp : Option κ
  remotePort : Option ℕ
  openedAtMs : Option ℤ
  deriving DecidableEq

/-- What is compared to skip a write. -/
def Connection.signature (connection : Connection κ) (source : κ) : ConnectionSignature κ :=
  ⟨source, connection.generation, connection.localIp, connection.localPort, connection.remoteIp,
    connection.remotePort, connection.openedAtMs⟩

/-- A connection of the batch, which is flushed at its end. -/
structure CachedConnection (κ : Type) where
  lastSequence : ℤ
  signature : Option (ConnectionSignature κ) := none
  dirty : Bool := false
  deriving DecidableEq

/-- What was written of a scope last. -/
structure ScopeSignature (κ : Type) where
  partition : RoutePartition
  connection : κ
  epoch : ℤ
  state : ScopeState
  reason : Option (Reason κ)
  vrfName : Option κ
  eventType : EventType κ
  deriving DecidableEq

/-- What a scope must not change. -/
structure ScopeValidation (κ : Type) where
  scope : κ
  source : κ
  partition : RoutePartition
  kind : ScopeKind
  afi : ℕ
  safi : ℕ
  deriving DecidableEq

/-- The caches of a batch. The surrogate keys that the code remembers need no place here, since a
row is referred to by its text; of the shared rows it is kept which of them are known. -/
structure Cache (κ : Type) where
  sources : κ → Option (SourceSignature κ) := fun _ => none
  connections : κ → Option (CachedConnection κ) := fun _ => none
  scopes : κ → Option (ScopeSignature κ) := fun _ => none
  validatedScopes : List (ScopeValidation κ) := []
  attributes : List κ := []
  routeIdentities : List κ := []
  routePayloads : List κ := []
  currentRouteRefs : Option (RouteKey κ → Option (Option (RouteRefs κ))) := none
  currentRouteRepeatKeys : List (RouteKey κ) := []
  deferredMetadataRefresh : Option (List (RouteParams κ)) := none

/-- The row with the sequence number that the batch reached. -/
def Cache.advance (cache : Cache κ) (row : ConnectionRow κ) : ConnectionRow κ :=
  match cache.connections row.id with
  | some state => if state.dirty then row.advance state.lastSequence else row
  | none => row

theorem Cache.id_advance (cache : Cache κ) (row : ConnectionRow κ) :
    (cache.advance row).id = row.id := by
  unfold advance
  split
  · split <;> simp
  · rfl

/-- A batch at work on the database. -/
structure Work (κ : Type) where
  db : Db κ
  cache : Cache κ

/-! ## What a mutation is about -/

namespace Mutation

/-- The partition of the scope, to which the route must belong. -/
def partition (m : Mutation κ) : Except (Failure κ) (Option RoutePartition) :=
  match m.scope, m.route with
  | none, _ => .ok none
  | some scope, some route =>
    ((assertBmpRouteMatchesScope route.identity.afi route.identity.safi scope.kind scope.afi
      scope.safi).map some).mapError .family
  | some scope, none =>
    ((resolveBmpRoutePartition scope.kind scope.afi scope.safi).map some).mapError .family

/-- The route that is announced. -/
def upserted (m : Mutation κ) : Option (Route κ) :=
  if m.eventType.isRouteUpsert then m.route else none

end Mutation

/-- The attribute row of a route, which is there only with its text. -/
def Route.attribute? (route : Route κ) : Option (Attribute κ) :=
  match route.attrId, route.attrJson with
  | some id, some json => some ⟨id, json⟩
  | _, _ => none

/-- The key of its attributes. -/
def Route.attrPk (route : Route κ) : Option κ := route.attribute?.map Attribute.id

/-- Candidates for the columns that are not null. -/
def gcCandidates (identity payload attr : Option κ) : List (SharedObject κ) :=
  identity.toList.map .identity ++ payload.toList.map .payload ++ attr.toList.map .attribute

/-- The candidates for the row that `RETURNING` gives. -/
def CurrentRoute.gcCandidates (r : CurrentRoute κ) : List (SharedObject κ) :=
  Store.gcCandidates (some r.key.route) (some r.payload) r.attr

/-- `mapDeltaMutationRoute`. -/
def Route.projection (route : Route κ) (scope : Scope κ) : Projection κ :=
  ⟨scope.id, route.identity, route.routeJson, route.attrId, route.attrJson, scope.epoch⟩

/-- The columns by which a scope is checked. -/
def Scope.validation (scope : Scope κ) (source : κ) (partition : RoutePartition) :
    ScopeValidation κ :=
  ⟨scope.id, source, partition, scope.kind, scope.afi, scope.safi⟩

/-- What a mutation must name it by. -/
def ScopeRow.validation (row : ScopeRow κ) : ScopeValidation κ :=
  ⟨row.id, row.source, row.partition, row.kind, row.afi, row.safi⟩

/-- What is compared to skip a write. -/
def ScopeParams.signature (p : ScopeParams κ) : ScopeSignature κ :=
  ⟨p.partition, p.connection, p.scope.epoch, p.state, p.reason, p.scope.vrfName, p.eventType⟩

namespace Mutation

/-- The parameters of the write of the scope. -/
def scopeParams (m : Mutation κ) (scope : Scope κ) (partition : RoutePartition) : ScopeParams κ :=
  ⟨scope, m.source.id, partition, m.connection.id, m.eventType, m.reason.or scope.reason,
    m.eventAtMs⟩

/-- The parameters of the write of the route. -/
def routeParams (m : Mutation κ) (scope : Scope κ) (partition : RoutePartition)
    (route : Route κ) : RouteParams κ where
  key := ⟨partition, scope.id, route.identity.id⟩
  payload := route.routeJson
  attr := route.attrPk
  connection := m.connection.id
  epoch := scope.epoch
  sourceTimestampMs := m.sourceTimestampMs
  sequence := m.sequence.getD 0

/-- The key of the route that the mutation is about. -/
def routeKey (m : Mutation κ) : Except (Failure κ) (Option (RouteKey κ)) := do
  match ← m.partition, m.scope, m.route with
  | some partition, some scope, some route => return some ⟨partition, scope.id, route.identity.id⟩
  | _, _, _ => return none

/-- The metadata can be refreshed together. -/
def sameContext [DecidableEq κ] (m first : Mutation κ) : Bool :=
  m.source = first.source && m.connection = first.connection && m.scope = first.scope &&
    m.reason.or (m.scope.bind Scope.reason) = first.reason.or (first.scope.bind Scope.reason)

/-- What is reported of an announcement. -/
def announcedDelta [DecidableEq κ] (m : Mutation κ) (scope : Scope κ) (route : Route κ)
    (params : RouteParams κ) (existing : Option (RouteRefs κ) × Option (Projection κ))
    (changed : Bool) : Delta κ where
  mutation := m
  classification :=
    if changed then
      match existing.1 with
      | some previous => if previous.attr = params.attr then .refresh else .replace
      | none => .announce
    else .upsertNoop
  projectionChanged := changed
  previous := existing.2
  current := if changed then some (route.projection scope) else existing.2

/-- What is reported of a withdrawal. -/
def withdrawnDelta (m : Mutation κ) (previous : Option (Projection κ)) (changed : Bool) :
    Delta κ where
  mutation := m
  classification :=
    if changed then
      match m.eventType with
      | .purge => .purge
      | _ => .withdraw
    else .withdrawNoop
  projectionChanged := changed
  previous := previous
  current := if changed then none else previous

end Mutation

/-- What an announcement leaves to the collector: the references that it replaced, or its own
objects if it was not written. -/
def RouteParams.announcedCandidates [DecidableEq κ] (params : RouteParams κ)
    (existing : Option (RouteRefs κ)) (changed : Bool) : List (SharedObject κ) :=
  match existing, changed with
  | some previous, true =>
    gcCandidates none (if previous.payload ≠ params.payload then some previous.payload else none)
      (if previous.attr ≠ params.attr then previous.attr else none)
  | none, true => []
  | some previous, false =>
    gcCandidates none (if previous.payload = params.payload then none else some params.payload)
      (if previous.attr = params.attr then none else params.attr)
  | none, false => gcCandidates (some params.key.route) (some params.payload) params.attr

/-- A row of the bulk refresh, which takes the context from the first row. -/
def RouteParams.inContextOf (params first : RouteParams κ) : RouteParams κ :=
  { params with
    key := { first.key with route := params.key.route }
    connection := first.connection
    epoch := first.epoch }

variable [DecidableEq κ]

/-- `findCurrentRoute`: the row with all that it is joined with. -/
def Db.findCurrentRoute (db : Db κ) (key : RouteKey κ) : Option (RouteRefs κ × Projection κ) := do
  let r ← db.routes.find? key
  let identity ← db.identities.find? key.route
  let payload ← db.payloads.find? r.payload
  let scope ← db.scopes.find? key.scope
  let _ ← db.connections.find? r.connection
  let attr := r.attr.bind db.attributes.find?
  return (r.refs, ⟨scope.id, identity, payload, attr.map Attribute.id, attr.map Attribute.json,
    r.ribEpoch⟩)

/-- The row that an announcement replaces, and how a delta shows it. With deltas the row is read
again together with what it is joined with. -/
def Db.previousRow (db : Db κ) (key : RouteKey κ) (previous : Option (RouteRefs κ))
    (includeDeltas : Bool) : Option (RouteRefs κ) × Option (Projection κ) :=
  if includeDeltas then
    match previous with
    | some _ =>
      let row := db.findCurrentRoute key
      (row.map Prod.fst, row.map Prod.snd)
    | none => (none, none)
  else (previous, none)

/-- Write the row of an announced route, which is not identical to the previous one. The result
tells whether it was written, and the delta. -/
def Db.announceRoute (db : Db κ) (m : Mutation κ) (scope : Scope κ) (partition : RoutePartition)
    (route : Route κ) (previous : Option (RouteRefs κ)) (includeDeltas : Bool) :
    Except (Failure κ) (Db κ × Bool × Option (Delta κ)) := do
  let params := m.routeParams scope partition route
  let existing := db.previousRow params.key previous includeDeltas
  let (written, changed) ← db.upsertRoute params
  return (written.addGcCandidates (params.announcedCandidates existing.1 changed), changed,
    if includeDeltas then some (m.announcedDelta scope route params existing changed) else none)

/-- An announcement without a route, which has no key to write. -/
def Db.announceNothing (db : Db κ) (m : Mutation κ) (scope : Scope κ)
    (partition : RoutePartition) (includeDeltas : Bool) :
    Except (Failure κ) (Option (Delta κ)) :=
  if db.ownsScope partition scope.id m.connection.id scope.epoch then .error .identityNotOfPartition
  else .ok (if includeDeltas then some ⟨m, .upsertNoop, false, none, none⟩ else none)

/-- The route is deleted if the connection owns it. -/
def Db.withdraw (db : Db κ) (m : Mutation κ) (scope : Scope κ) (partition : RoutePartition)
    (routePk : Option κ) (includeDeltas : Bool) : Db κ × Option (Delta κ) :=
  let key := routePk.map fun route => (⟨partition, scope.id, route⟩ : RouteKey κ)
  let previous := (key.bind db.findCurrentRoute).map Prod.snd
  let (written, deleted) := match key with
    | some key => db.withdrawRoute key m.connection.id scope.epoch
    | none => (db, none)
  (written.addGcCandidates (deleted.toList.flatMap CurrentRoute.gcCandidates),
    if includeDeltas then some (m.withdrawnDelta previous deleted.isSome) else none)

/-- `connection_close`. -/
def Db.close (db : Db κ) (m : Mutation κ) : Db κ :=
  let reason := m.reason.getD .connectionClose
  (db.closeConnection m.connection.id m.eventAtMs reason).closeConnectionScopes m.connection.id
    m.eventAtMs reason

namespace Work

/-! ## Replay detection -/

variable (w : Work κ) (m : Mutation κ)

/-- The state of a connection in the cache or the database. -/
def connectionState (connection : κ) : CachedConnection κ :=
  match w.cache.connections connection with
  | some state => state
  | none =>
    match w.db.connections.find? connection with
    | some row => { lastSequence := row.lastSequence }
    | none => { lastSequence := 0 }

/-- The cache remembers the state of a connection. -/
def setConnection (connection : κ) (state : CachedConnection κ) : Work κ :=
  { w with
    cache := { w.cache with
      connections := Function.update w.cache.connections connection (some state) } }

/-- Remember the state of the connection that tells replays. -/
def probe : Work κ :=
  if m.sequence.isSome then w.setConnection m.connection.id (w.connectionState m.connection.id)
  else w

/-- The objects that were read ahead for a replayed mutation and that it does not make live. -/
def rejectedObjects (partition : Option RoutePartition) :
    List (SharedObject κ) :=
  match m.route with
  | none => []
  | some route =>
    let routePk := Option.guard (· ∈ w.cache.routeIdentities) route.identity.id
    let payloadId := Option.guard (· ∈ w.cache.routePayloads) route.routeJson
    let attrPk := route.attrId.filter (· ∈ w.cache.attributes)
    let existing : Option (CurrentRoute κ) := do
      let p ← partition
      let scope ← m.scope
      let row ← w.db.scopes.find? scope.id
      let routePk ← routePk
      w.db.routes.find? ⟨p, row.id, routePk⟩
    Store.gcCandidates (if existing.isSome then none else routePk)
      (if existing.map CurrentRoute.payload = payloadId then none else payloadId)
      (if existing.bind CurrentRoute.attr = attrPk then none else attrPk)

/-! ## Sources, connections and scopes -/

/-- The source is written unless the batch wrote the same. -/
def resolveSource (source : Source κ) : Work κ :=
  if w.cache.sources source.id = some source.signature then w
  else
    { db := w.db.upsertSource source
      cache := { w.cache with
        sources := Function.update w.cache.sources source.id (some source.signature) } }

/-- The connection is written unless the batch wrote the same. -/
def resolveConnection (connection : Connection κ) (source : κ) (eventAtMs : ℤ) :
    Work κ :=
  let cached := w.cache.connections connection.id
  if cached.bind CachedConnection.signature = some (connection.signature source) then w
  else
    let db := w.db.upsertConnection connection source eventAtMs
    let lastSequence := match db.connections.find? connection.id with
      | some row => row.lastSequence
      | none => 0
    let state := cached.getD { lastSequence := 0 }
    { w with db := db }.setConnection connection.id
      { state with
        lastSequence := max state.lastSequence lastSequence
        signature := some (connection.signature source) }

/-- The sequence is remembered and written at the end. -/
def advanceSequence (connection : κ) (sequence : Option ℤ) : Work κ :=
  match sequence with
  | some sequence =>
    w.setConnection connection
      { w.connectionState connection with lastSequence := sequence, dirty := true }
  | none => w

/-- Check the scope that is there, once for each way in which the batch describes it. -/
def validateScope (scope : Scope κ) (partition : RoutePartition) :
    Except (Failure κ) (Work κ) :=
  let key := scope.validation m.source.id partition
  if key ∈ w.cache.validatedScopes then .ok w
  else if (w.db.scopes.find? scope.id).any fun row => row.validation ≠ key then
    .error (.scopeIdentityCollision scope.id)
  else
    .ok { w with cache := { w.cache with validatedScopes := key :: w.cache.validatedScopes } }

/-- Write the scope, unless the batch wrote it last with the same signature. -/
def writeScope (scope : Scope κ) (partition : RoutePartition) :
    Work κ :=
  let params := m.scopeParams scope partition
  if w.cache.scopes scope.id = some params.signature then w
  else
    { db := w.db.upsertScope params
      cache := { w.cache with
        scopes := Function.update w.cache.scopes scope.id (some params.signature) } }

/-- The scope is checked and written unless the batch wrote the same. -/
def resolveScope (scope : Scope κ) (partition : RoutePartition) :
    Except (Failure κ) (Work κ) := do
  let validated ← w.validateScope m scope partition
  let written := validated.writeScope m scope partition
  if (written.db.scopes.find? scope.id).isNone then .error (.scopeNotPersisted scope.id)
  else return written

/-- The scope of the mutation, if it has one. -/
def resolveScope? (partition : Option RoutePartition) :
    Except (Failure κ) (Work κ) :=
  match m.scope, partition with
  | some scope, some p => w.resolveScope m scope p
  | _, _ => .ok w

/-! ## Shared rows -/

/-- The attributes are written once in a batch. -/
def resolveAttrPk (route : Route κ) : Work κ :=
  match route.attribute? with
  | some attr =>
    if attr.id ∈ w.cache.attributes then w
    else
      { db := w.db.upsertAttribute attr
        cache := { w.cache with attributes := attr.id :: w.cache.attributes } }
  | none => w

/-- The identity is written once in a batch. -/
def resolveIdentity (identity : Identity κ) : Work κ :=
  if identity.id ∈ w.cache.routeIdentities then w
  else
    { db := w.db.upsertRouteIdentity identity
      cache := { w.cache with routeIdentities := identity.id :: w.cache.routeIdentities } }

/-- The payload is written once in a batch. -/
def resolvePayload (routeJson : κ) : Work κ :=
  if routeJson ∈ w.cache.routePayloads then w
  else
    { db := w.db.upsertRoutePayload routeJson
      cache := { w.cache with routePayloads := routeJson :: w.cache.routePayloads } }

/-- The rows that an announced route shares with others. -/
def resolveObjects (route : Route κ) : Work κ :=
  ((w.resolveAttrPk route).resolveIdentity route.identity).resolvePayload route.routeJson

/-- The identity of a withdrawn route, which is looked up and never inserted. -/
def findIdentity (routeId : κ) : Work κ × Option κ :=
  if routeId ∈ w.cache.routeIdentities then (w, some routeId)
  else if (w.db.identities.find? routeId).isSome then
    ({ w with cache := { w.cache with
        routeIdentities := routeId :: w.cache.routeIdentities } }, some routeId)
  else (w, none)

/-! ## Announcing a route -/

/-- The row as the batch knows it, or as it is in the database. -/
def previousRefs (key : RouteKey κ) : Option (RouteRefs κ) :=
  match w.cache.currentRouteRefs.bind fun refs => refs key with
  | some cached => cached
  | none => (w.db.routes.find? key).map CurrentRoute.refs

/-- Refresh an identical path now, or at the end of the batch. -/
def refresh (params : RouteParams κ) : Work κ :=
  match w.cache.deferredMetadataRefresh with
  | some rows =>
    { w with cache := { w.cache with deferredMetadataRefresh := some (rows ++ [params]) } }
  | none => { w with db := w.db.refreshRouteMetadata params }

/-- Keep the row that was written for the mutations of the batch that read it again. -/
def rememberRefs (params : RouteParams κ) : Work κ :=
  if params.key ∈ w.cache.currentRouteRepeatKeys then
    { w with cache := { w.cache with
        currentRouteRefs := w.cache.currentRouteRefs.map fun refs =>
          Function.update refs params.key (some (some params.row.refs)) } }
  else w

/-- The route is written, or only its metadata if nothing else changes. -/
def announce (scope : Scope κ) (partition : RoutePartition)
    (route : Route κ) (includeDeltas : Bool) : Except (Failure κ) (Work κ × Option (Delta κ)) := do
  let params := m.routeParams scope partition route
  let previous := w.previousRefs params.key
  if previous = some params.row.refs then return (w.refresh params, none)
  else
    let (db, changed, delta) ← w.db.announceRoute m scope partition route previous includeDeltas
    let written : Work κ := { w with db := db }
    return (if changed then written.rememberRefs params else written, delta)

/-! ## One mutation -/

/-- What the type of the mutation asks for. -/
def applyEvent (partition : Option RoutePartition)
    (includeDeltas : Bool) : Except (Failure κ) (Work κ × Option (Delta κ)) :=
  match m.eventType.action, m.scope, partition with
  | .announce, some scope, some p =>
    match m.route with
    | some route => (w.resolveObjects route).announce m scope p route includeDeltas
    | none => do
      let delta ← w.db.announceNothing m scope p includeDeltas
      return (w, delta)
  | .withdraw, some scope, some p =>
    match m.route with
    | some route =>
      let (found, routePk) := w.findIdentity route.identity.id
      let (db, delta) := found.db.withdraw m scope p routePk includeDeltas
      .ok ({ found with db := db }, delta)
    | none =>
      let (db, delta) := w.db.withdraw m scope p none includeDeltas
      .ok ({ w with db := db }, delta)
  | .markEor, some scope, _ =>
    .ok ({ w with db := w.db.markScopeEor scope.id scope.epoch m.connection.id }, none)
  | .markTimeout, some scope, _ =>
    .ok ({ w with db := w.db.markScopeTimeout scope.id scope.epoch m.connection.id }, none)
  | .close, _, _ => .ok ({ w with db := w.db.close m }, none)
  | .sample, _, _ => .ok ({ w with db := w.db.insertStatistics m }, none)
  | .nothing, _, _ => .ok (w, none)
  | _, _, _ => .error .scopeMissing

/-- The result tells whether the mutation was applied, and the delta that it committed. -/
def applyMutation (includeDeltas : Bool) :
    Except (Failure κ) (Work κ × Bool × Option (Delta κ)) := do
  let partition ← m.partition
  let state := w.connectionState m.connection.id
  let probed := w.probe m
  if m.sequence.any (· ≤ state.lastSequence) then
    return ({ probed with
      db := probed.db.addGcCandidates (probed.rejectedObjects m partition) }, false, none)
  else
    let resolved := ((probed.resolveSource m.source).resolveConnection m.connection m.source.id
      m.eventAtMs).advanceSequence m.connection.id m.sequence
    let written ← resolved.resolveScope? m partition
    let (applied, delta) ← written.applyEvent m partition includeDeltas
    return (applied, true, delta)

/-! ## Batches -/

/-- Insert the shared rows of all announced routes at once. -/
def prefillRouteObjectCaches (ms : List (Mutation κ)) : Work κ :=
  let routes := ms.filterMap Mutation.upserted
  let attrs := routes.filterMap Route.attribute?
  { db := { w.db with
      identities := (routes.map Route.identity).foldl Table.insert w.db.identities
      payloads := (routes.map Route.routeJson).foldl Table.insert w.db.payloads
      attributes := attrs.foldl Table.insert w.db.attributes }
    cache := { w.cache with
      routeIdentities := routes.map (fun route => route.identity.id)
      routePayloads := routes.map Route.routeJson
      attributes := attrs.map Attribute.id } }

/-- Read the current routes of a batch that only announces. -/
def prefillCurrentRouteRefs (ms : List (Mutation κ)) :
    Except (Failure κ) (Work κ) := do
  if ms.length < 2 ∨ ¬ ms.all fun m => m.upserted.isSome && m.scope.isSome then return w
  else
    let keys := (← ms.mapM Mutation.routeKey).reduceOption
    return { w with cache := { w.cache with
      currentRouteRefs := some fun key =>
        if key ∈ keys then some ((w.db.routes.find? key).map CurrentRoute.refs) else none
      currentRouteRepeatKeys := keys.filter fun key => 1 < keys.count key } }

/-- Put off refreshes if all mutations have the same context and different routes. -/
def prepareDeferredMetadataRefresh (ms : List (Mutation κ)) : Work κ :=
  match ms with
  | [] => w
  | first :: _ =>
    if w.cache.currentRouteRefs.isSome ∧ 2 ≤ ms.length ∧ (ms.all fun m => m.sameContext first) ∧
        (ms.filterMap fun m => m.route.map fun route => route.identity.id).Nodup then
      { w with cache := { w.cache with deferredMetadataRefresh := some [] } }
    else w

/-- The metadata that were put off are written. -/
def flushDeferredMetadataRefresh : Db κ :=
  match w.cache.deferredMetadataRefresh with
  | some (first :: rest) =>
    (first :: rest).foldl (fun db row => db.refreshRouteMetadata (row.inContextOf first)) w.db
  | _ => w.db

/-- Write the sequence numbers that the batch reached. -/
def commitConnectionSequences (db : Db κ) (cache : Cache κ) : Db κ :=
  { db with connections := db.connections.modify cache.advance cache.id_advance }

/-- Apply the mutations in order, and collect the number of those applied and the deltas. -/
def applyMutations (includeDeltas : Bool) :
    Work κ → List (Mutation κ) → Except (Failure κ) (Work κ × ℕ × List (Delta κ))
  | w, [] => .ok (w, 0, [])
  | w, m :: ms => do
    let (w, applied, delta) ← w.applyMutation m includeDeltas
    let (w, count, deltas) ← applyMutations includeDeltas w ms
    return (w, (if applied then 1 else 0) + count, delta.toList ++ deltas)

end Work

/-- The result of `applyBatch` -/
structure BatchResult (κ : Type) where
  duplicate : Bool
  applied : ℕ
  deltas : List (Delta κ)

/-- One transaction: nothing is written if it fails. -/
def Db.applyBatch (db : Db κ) (batch : Batch κ) : Except (Failure κ) (Db κ × BatchResult κ) := do
  if (db.batches.find? batch.batchId).isSome then return (db, ⟨true, 0, []⟩)
  else
    let started : Work κ := ⟨db.insertBatch batch, {}⟩
    let filled ← (started.prefillRouteObjectCaches batch.mutations).prefillCurrentRouteRefs
      batch.mutations
    let prepared := filled.prepareDeferredMetadataRefresh batch.mutations
    let (w, applied, deltas) ← prepared.applyMutations batch.includeDeltas batch.mutations
    return (Work.commitConnectionSequences w.flushDeferredMetadataRefresh w.cache,
      ⟨false, applied, deltas⟩)

end Bmp.Store
