import NetNexus.Bmp.RoutePartition
import NetNexus.Table.Tally

/-!
# The tables of the BMP store

The schema of `bmpPersistenceStore`. A row is referred to by its unique text instead of by its
surrogate key, and the rows of a table stand in the order of their surrogate keys. The partitions of
the current routes are one table here with the partition as a column. Texts, which the store only
compares, are values of an arbitrary type `κ`. Times that only say when a row was first or last
written are left out.
-/

namespace Bmp.Store

variable {κ : Type}

/-! ## What a mutation says -/

/-- Why a scope is stale or a connection closed. The store has a meaning for some of the texts. -/
inductive Reason (κ : Type) where
  | refreshTimeout
  | reconnectRefreshTimeout
  | connectionClose
  | other (text : κ)
  deriving DecidableEq

/-- The state of a RIB. -/
inductive ScopeState where
  | syncing
  | ready
  | stale
  | down
  deriving DecidableEq

/-- `IN ('stale', 'down')`. -/
def ScopeState.isStale : ScopeState → Bool
  | .syncing | .ready => false
  | .stale | .down => true

/-- The type of a mutation. -/
inductive EventType (κ : Type) where
  | upsert
  | announce
  | replace
  | refresh
  | delete
  | withdraw
  | purge
  | scopeOpen
  | scopeEor
  | scopeTimeout
  | connectionClose
  | statistics
  | other (name : κ)
  deriving DecidableEq

/-- The cases of the switch over the event types. -/
inductive EventAction where
  | announce
  | withdraw
  | markEor
  | markTimeout
  | close
  | sample
  | nothing
  deriving DecidableEq

def EventType.action : EventType κ → EventAction
  | .upsert | .announce | .replace | .refresh => .announce
  | .delete | .withdraw | .purge => .withdraw
  | .scopeEor => .markEor
  | .scopeTimeout => .markTimeout
  | .connectionClose => .close
  | .statistics => .sample
  | .scopeOpen | .other _ => .nothing

/-- `ROUTE_UPSERT_EVENTS`. -/
def EventType.isRouteUpsert (eventType : EventType κ) : Bool := eventType.action = .announce

/-- A monitored router, as a mutation describes it and as `bmp_sources` keeps it. -/
structure Source (κ : Type) where
  id : κ
  keyJson : κ
  identityJson : κ
  remoteIp : Option κ
  sysName : Option κ
  sysDesc : Option κ
  metadataJson : Option κ
  deriving DecidableEq

/-- A connection of a router, as a mutation names it. -/
structure Connection (κ : Type) where
  id : κ
  sourceId : κ
  generation : ℤ
  localIp : Option κ
  localPort : Option ℕ
  remoteIp : Option κ
  remotePort : Option ℕ
  openedAtMs : Option ℤ
  deriving DecidableEq

/-- A RIB of a peer or of the router itself. The keys and the peer that identify it, which are
written once and read by no decision, are one text. -/
structure Scope (κ : Type) where
  id : κ
  sourceId : κ
  identity : κ
  kind : ScopeKind
  ownerKey : Option κ
  vrfName : Option κ
  afi : ℕ
  safi : ℕ
  ribType : κ
  epoch : ℤ
  state : Option ScopeState
  reason : Option (Reason κ)
  deriving DecidableEq

/-- What identifies a route, a row of `bmp_route_identities`. The columns that no decision reads
(version of the key, path identifier, route distinguisher, NLRI) are one text. -/
structure Identity (κ : Type) where
  id : κ
  afi : ℕ
  safi : ℕ
  keyColumns : κ
  legacyRouteKey : Option κ
  pathPrefix : Option κ
  prefixLength : Option ℕ
  deriving DecidableEq

/-- The route of a mutation. -/
structure Route (κ : Type) where
  identity : Identity κ
  routeJson : κ
  attrId : Option κ
  attrJson : Option κ
  deriving DecidableEq

/-- A statistics report with the kind and the key of what it reports on. -/
structure Report (κ : Type) where
  identity : Option (κ × κ)
  json : κ
  deriving DecidableEq

/-- A mutation of the store. -/
structure Mutation (κ : Type) where
  eventType : EventType κ
  sequence : Option ℤ
  eventAtMs : ℤ
  sourceTimestampMs : Option ℤ
  reason : Option (Reason κ)
  source : Source κ
  connection : Connection κ
  scope : Option (Scope κ)
  route : Option (Route κ)
  statistics : Report κ
  deriving DecidableEq

/-! ## Rows -/

/-- A row of `bmp_connections` -/
structure ConnectionRow (κ : Type) where
  id : κ
  source : κ
  generation : ℤ
  localIp : Option κ
  localPort : Option ℕ
  remoteIp : Option κ
  remotePort : Option ℕ
  openedAtMs : ℤ
  closedAtMs : Option ℤ
  closeReason : Option (Reason κ)
  isOpen : Bool
  lastSequence : ℤ
  deriving DecidableEq

/-- A row of `bmp_rib_scopes` -/
structure ScopeRow (κ : Type) where
  id : κ
  source : κ
  partition : RoutePartition
  identity : κ
  kind : ScopeKind
  ownerKey : Option κ
  vrfName : Option κ
  afi : ℕ
  safi : ℕ
  ribType : κ
  currentEpoch : ℤ
  eorEpoch : Option ℤ
  state : ScopeState
  staleReason : Option (Reason κ)
  staleSinceMs : Option ℤ
  refreshStartedMs : Option ℤ
  cleanupPendingEpoch : Option ℤ
  lastConnection : κ
  deriving DecidableEq

/-- The state that a route was given. -/
inductive ExplicitState where
  | active
  | stale
  deriving DecidableEq

/-- The unique columns of a current route. -/
structure RouteKey (κ : Type) where
  partition : RoutePartition
  scope : κ
  route : κ
  deriving DecidableEq

/-- A row of a table of current routes. -/
structure CurrentRoute (κ : Type) where
  key : RouteKey κ
  payload : κ
  attr : Option κ
  connection : κ
  ribEpoch : ℤ
  explicitState : ExplicitState
  sourceTimestampMs : Option ℤ
  lastSequence : ℤ
  deriving DecidableEq

/-- The columns by which `bmp_scope_route_counts` counts the current routes. -/
structure Bucket (κ : Type) where
  scope : κ
  connection : κ
  ribEpoch : ℤ
  explicitState : ExplicitState
  deriving DecidableEq

def CurrentRoute.bucket (r : CurrentRoute κ) : Bucket κ :=
  ⟨r.key.scope, r.connection, r.ribEpoch, r.explicitState⟩

/-- A row of `bmp_route_attributes` -/
structure Attribute (κ : Type) where
  id : κ
  json : κ
  deriving DecidableEq

/-- A row that current routes share, as `bmp_gc_candidates` names it. -/
inductive SharedObject (κ : Type) where
  | identity (id : κ)
  | payload (json : κ)
  | attribute (id : κ)
  deriving DecidableEq

/-- The row holds a reference to the object. -/
def CurrentRoute.RefersTo (r : CurrentRoute κ) : SharedObject κ → Prop
  | .identity id => r.key.route = id
  | .payload json => r.payload = json
  | .attribute id => r.attr = some id

instance [DecidableEq κ] (r : CurrentRoute κ) (o : SharedObject κ) : Decidable (r.RefersTo o) :=
  match o with
  | .identity id => inferInstanceAs (Decidable (r.key.route = id))
  | .payload json => inferInstanceAs (Decidable (r.payload = json))
  | .attribute id => inferInstanceAs (Decidable (r.attr = some id))

/-- A batch of mutations. -/
structure Batch (κ : Type) where
  batchId : κ
  createdAtMs : ℤ
  mutations : List (Mutation κ)
  includeDeltas : Bool

/-- A row of `bmp_ingest_batches`. -/
structure BatchRow (κ : Type) where
  batchId : κ
  createdAtMs : ℤ
  mutationCount : ℕ
  deriving DecidableEq

/-- A row of `bmp_statistics_samples` -/
structure Sample (κ : Type) where
  sampleId : ℕ
  source : κ
  connection : κ
  scope : Option κ
  report : Report κ
  observedAtMs : ℤ
  sourceTimestampMs : Option ℤ
  deriving DecidableEq

/-- A row of `bmp_statistics_latest` -/
structure LatestReport (κ : Type) where
  source : κ
  identity : κ × κ
  sampleId : ℕ
  observedAtMs : ℤ
  deriving DecidableEq

def LatestReport.key (r : LatestReport κ) : κ × κ × κ := (r.source, r.identity)

/-- The database. `sampleSequence` is the last number that a statistics sample got. -/
structure Db (κ : Type) where
  sources : Table (Source.id (κ := κ))
  connections : Table (ConnectionRow.id (κ := κ))
  scopes : Table (ScopeRow.id (κ := κ))
  routes : Table (CurrentRoute.key (κ := κ))
  counts : Tally (Bucket κ)
  identities : Table (Identity.id (κ := κ))
  payloads : Table (id : κ → κ)
  attributes : Table (Attribute.id (κ := κ))
  gcCandidates : Table (id : SharedObject κ → SharedObject κ)
  batches : Table (BatchRow.batchId (κ := κ))
  samples : Table (Sample.sampleId (κ := κ))
  latest : Table (LatestReport.key (κ := κ))
  sampleSequence : ℕ

def Db.empty : Db κ where
  sources := .empty
  connections := .empty
  scopes := .empty
  routes := .empty
  counts := .empty
  identities := .empty
  payloads := .empty
  attributes := .empty
  gcCandidates := .empty
  batches := .empty
  samples := .empty
  latest := .empty
  sampleSequence := 0

/-! ## Errors -/

/-- What makes a call fail, and its transaction roll back. -/
inductive Failure (κ : Type) where
  | family (error : FamilyError)
  | scopeIdentityCollision (scope : κ)
  | scopeNotPersisted (scope : κ)
  | identityNotOfPartition
  /-- A property of the missing scope is read. -/
  | scopeMissing
  /-- A manual purge without a scope and an owner. -/
  | purgeTargetRequired
  | purgeCandidatesChanged
  | cursorNotAccepted
  | lifecycleSourceRequired
  deriving DecidableEq

/-! ## Triggers of the current routes -/

variable [DecidableEq κ]

/-- `trg_…_validate_insert`. The predicate on the family of a partition holds for the AFIs and
SAFIs that have its family id. -/
def Db.validateInsert (db : Db κ) (key : RouteKey κ) : Bool :=
  match db.identities.find? key.route, db.scopes.find? key.scope with
  | some identity, some scope =>
    scope.partition = key.partition && scope.kind = key.partition.scopeKind &&
      scope.afi = identity.afi && scope.safi = identity.safi &&
      routeFamilyId identity.afi identity.safi = key.partition.familyId
  | _, _ => false

/-- Insert a row, or write it over the one with its key, with the triggers that count rows. -/
def Db.writeRoute (db : Db κ) (r : CurrentRoute κ) : Db κ :=
  { db with
    routes := db.routes.upsert r
    counts := match db.routes.find? r.key with
      | some old =>
        if old.bucket ≠ r.bucket then (db.counts.down old.bucket).up r.bucket else db.counts
      | none => db.counts.up r.bucket }

/-- Delete the rows with a property, with the trigger that counts rows. -/
def Db.deleteRoutes (db : Db κ) (p : CurrentRoute κ → Bool) : Db κ :=
  { db with
    routes := db.routes.filter fun r => !p r
    counts := (db.routes.rows.filter p).foldl (fun counts r => counts.down r.bucket) db.counts }

/-- Change columns of the rows that no trigger looks at. -/
def Db.touchRoutes (db : Db κ) (f : CurrentRoute κ → CurrentRoute κ)
    (hf : ∀ r, (f r).key = r.key) : Db κ :=
  { db with routes := db.routes.modify f hf }

end Bmp.Store
