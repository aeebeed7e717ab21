import NetNexus.Bmp.StoreBatch

/-!
# Mutations without caches

What a mutation does to the database when nothing is read ahead, remembered or put off. A batch does
the same to it, mutation by mutation, but for two things that are given here as a hint: the write of
a scope that the batch leaves out, and what a replayed mutation leaves to the collector.
-/

namespace Bmp.Store

variable {κ : Type}

/-- What a batch knows of a mutation from the ones before. -/
structure Hint (κ : Type) where
  skipScope : Bool := false
  candidates : List (SharedObject κ) := []

variable [DecidableEq κ]

namespace Db

variable (db : Db κ) (m : Mutation κ)

/-- The rows that the announced route of a mutation shares with others. -/
def insertObjects : Db κ :=
  match m.upserted with
  | some route =>
    { db with
      identities := db.identities.insert route.identity
      payloads := db.payloads.insert route.routeJson
      attributes := route.attribute?.toList.foldl Table.insert db.attributes }
  | none => db

def lastSequenceOf (connection : κ) : ℤ :=
  match db.connections.find? connection with
  | some row => row.lastSequence
  | none => 0

/-- The connection has already committed the sequence number. -/
def isReplay : Bool :=
  m.sequence.any (· ≤ db.lastSequenceOf m.connection.id)

def resolveContext : Db κ :=
  let resolved := (db.upsertSource m.source).upsertConnection m.connection m.source.id m.eventAtMs
  match m.sequence with
  | some sequence => resolved.advanceConnectionSequence m.connection.id sequence
  | none => resolved

def resolveScope (partition : Option RoutePartition) (skip : Bool) :
    Except (Failure κ) (Db κ) :=
  match m.scope, partition with
  | some scope, some p =>
    if (db.scopes.find? scope.id).any fun row =>
      row.validation ≠ scope.validation m.source.id p then
      .error (.scopeIdentityCollision scope.id)
    else
      let written := if skip then db else db.upsertScope (m.scopeParams scope p)
      if (written.scopes.find? scope.id).isNone then .error (.scopeNotPersisted scope.id)
      else .ok written
  | _, _ => .ok db

def announce (scope : Scope κ) (partition : RoutePartition)
    (route : Route κ) (includeDeltas : Bool) : Except (Failure κ) (Db κ × Option (Delta κ)) := do
  let params := m.routeParams scope partition route
  let previous := (db.routes.find? params.key).map CurrentRoute.refs
  if previous = some params.row.refs then return (db.refreshRouteMetadata params, none)
  else
    let (written, _, delta) ← db.announceRoute m scope partition route previous includeDeltas
    return (written, delta)

def applyEvent (partition : Option RoutePartition)
    (includeDeltas : Bool) : Except (Failure κ) (Db κ × Option (Delta κ)) :=
  match m.eventType.action, m.scope, partition with
  | .announce, some scope, some p =>
    match m.route with
    | some route => db.announce m scope p route includeDeltas
    | none => do
      let delta ← db.announceNothing m scope p includeDeltas
      return (db, delta)
  | .withdraw, some scope, some p =>
    let routePk := m.route.bind fun route => (db.identities.find? route.identity.id).map Identity.id
    .ok (db.withdraw m scope p routePk includeDeltas)
  | .markEor, some scope, _ => .ok (db.markScopeEor scope.id scope.epoch m.connection.id, none)
  | .markTimeout, some scope, _ =>
    .ok (db.markScopeTimeout scope.id scope.epoch m.connection.id, none)
  | .close, _, _ => .ok (db.close m, none)
  | .sample, _, _ => .ok (db.insertStatistics m, none)
  | .nothing, _, _ => .ok (db, none)
  | _, _, _ => .error .scopeMissing

/-- Apply a mutation whose shared rows are there. The result tells whether the mutation was applied,
and the delta that it committed. -/
def applyFilled (includeDeltas : Bool) (hint : Hint κ) :
    Except (Failure κ) (Db κ × Bool × Option (Delta κ)) := do
  let partition ← m.partition
  if db.isReplay m then
    return (db.addGcCandidates hint.candidates, false, none)
  else
    let written ← (db.resolveContext m).resolveScope m partition hint.skipScope
    let (applied, delta) ← written.applyEvent m partition includeDeltas
    return (applied, true, delta)

def apply (includeDeltas : Bool) (hint : Hint κ) :
    Except (Failure κ) (Db κ × Bool × Option (Delta κ)) :=
  (db.insertObjects m).applyFilled m includeDeltas hint

def applyAll (includeDeltas : Bool) :
    Db κ → List (Mutation κ × Hint κ) → Except (Failure κ) (Db κ × ℕ × List (Delta κ))
  | db, [] => .ok (db, 0, [])
  | db, (m, hint) :: ms => do
    let (db, applied, delta) ← db.apply m includeDeltas hint
    let (db, count, deltas) ← applyAll includeDeltas db ms
    return (db, (if applied then 1 else 0) + count, delta.toList ++ deltas)

end Db

end Bmp.Store
