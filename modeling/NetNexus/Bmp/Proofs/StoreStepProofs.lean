import NetNexus.Bmp.Proofs.StoreObjectsProofs

/-!
# What a mutation can do

All that a mutation without caches can do to the database, so that invariants are proved case by
case without looking into it again.
-/

namespace Bmp.Store

variable {κ : Type}

theorem CurrentRoute.refersTo_congr {r old : CurrentRoute κ} (hrefs : r.refs = old.refs)
    (hkey : r.key = old.key) (o : SharedObject κ) : r.RefersTo o ↔ old.RefersTo o := by
  have hpay : r.payload = old.payload := congrArg RouteRefs.payload hrefs
  have hattr : r.attr = old.attr := congrArg RouteRefs.attr hrefs
  unfold CurrentRoute.RefersTo
  rw [hkey, hpay, hattr]

variable [DecidableEq κ]

namespace Db

/-- What the event of a mutation does once its scope is resolved. -/
inductive Effect (db : Db κ) (m : Mutation κ) (includeDeltas : Bool) : Db κ → Prop
  | nothing (h : m.eventType.action = .nothing ∨ m.eventType.action = .announce ∧ m.route = none) :
    Effect db m includeDeltas db
  | refreshed {scope p route} (hp : m.partition = .ok (some p)) (hscope : m.scope = some scope)
    (hroute : m.upserted = some route)
    (hsame : (db.routes.find? (m.routeParams scope p route).key).map CurrentRoute.refs =
      some (m.routeParams scope p route).row.refs) :
    Effect db m includeDeltas (db.refreshRouteMetadata (m.routeParams scope p route))
  | rejected {scope p route} (hp : m.partition = .ok (some p)) (hscope : m.scope = some scope)
    (hroute : m.upserted = some route) (h : db.Rejects (m.routeParams scope p route)) :
    Effect db m includeDeltas (db.addGcCandidates
      ((m.routeParams scope p route).announcedCandidates
        (db.previousRow (m.routeParams scope p route).key
          ((db.routes.find? (m.routeParams scope p route).key).map CurrentRoute.refs)
          includeDeltas).1 false))
  | announced {scope p route} (hp : m.partition = .ok (some p)) (hscope : m.scope = some scope)
    (hroute : m.upserted = some route)
    (howns : db.ownsScope p scope.id m.connection.id scope.epoch = true)
    (hvalid : db.validateInsert (m.routeParams scope p route).key = true) :
    Effect db m includeDeltas ((db.writeRoute (m.routeParams scope p route).row).addGcCandidates
      ((m.routeParams scope p route).announcedCandidates
        (db.previousRow (m.routeParams scope p route).key
          ((db.routes.find? (m.routeParams scope p route).key).map CurrentRoute.refs)
          includeDeltas).1 true))
  | ignored {scope p} (hp : m.partition = .ok (some p)) (hscope : m.scope = some scope)
    (haction : m.eventType.action = .withdraw)
    (h : ∀ route, m.route = some route → db.ownsScope p scope.id m.connection.id scope.epoch = false
      ∨ db.identities.find? route.identity.id = none) :
    Effect db m includeDeltas db
  | withdrawn {scope p route} (hp : m.partition = .ok (some p)) (hscope : m.scope = some scope)
    (haction : m.eventType.action = .withdraw) (hroute : m.route = some route)
    (howns : db.ownsScope p scope.id m.connection.id scope.epoch = true) :
    Effect db m includeDeltas
      ((db.deleteRoute (m.routeParams scope p route).key).addGcCandidates
        ((db.routes.find? (m.routeParams scope p route).key).toList.flatMap
          CurrentRoute.gcCandidates))
  | markedEor {scope} (hscope : m.scope = some scope) (haction : m.eventType.action = .markEor) :
    Effect db m includeDeltas (db.markScopeEor scope.id scope.epoch m.connection.id)
  | markedTimeout {scope} (hscope : m.scope = some scope)
    (haction : m.eventType.action = .markTimeout) :
    Effect db m includeDeltas (db.markScopeTimeout scope.id scope.epoch m.connection.id)
  | closed (haction : m.eventType.action = .close) : Effect db m includeDeltas (db.close m)
  | sampled (haction : m.eventType.action = .sample) :
    Effect db m includeDeltas (db.insertStatistics m)

variable {db : Db κ} {m : Mutation κ} {includeDeltas : Bool} {x : Db κ × Option (Delta κ)}

theorem announce_ok {scope : Scope κ} {p : RoutePartition} {route : Route κ}
    (hp : m.partition = .ok (some p)) (hscope : m.scope = some scope)
    (hroute : m.upserted = some route) (h : db.announce m scope p route includeDeltas = .ok x) :
    db.Effect m includeDeltas x.1 := by
  unfold announce at h
  dsimp only at h
  split at h
  · rename_i hsame
    cases h
    exact .refreshed hp hscope hroute hsame
  · obtain ⟨⟨_, _, _⟩, hann, h⟩ := Control.bind_ok.mp h
    cases h
    obtain ⟨_, hups, hwr⟩ := announceRoute_ok hann
    rw [hwr]
    rcases upsertRoute_ok hups with ⟨hnot, hreje⟩ | ⟨hdone, howns, hvalid⟩
    · cases hnot
      exact .rejected hp hscope hroute hreje
    · cases hdone
      exact .announced hp hscope hroute howns hvalid

theorem applyEvent_ok {partition : Option RoutePartition} (hp : m.partition = .ok partition)
    (h : db.applyEvent m partition includeDeltas = .ok x) : db.Effect m includeDeltas x.1 := by
  unfold applyEvent at h
  cases ha : m.eventType.action <;> cases hs : m.scope <;> cases hpp : partition <;>
    simp only [ha, hs, hpp] at h
  case announce.some.some scope p =>
    subst hpp
    cases hr : m.route with
    | none =>
      simp only [hr] at h
      obtain ⟨delta, -, h⟩ := Control.bind_ok.mp h
      cases h
      exact .nothing (.inr ⟨ha, hr⟩)
    | some _ =>
      simp only [hr] at h
      have hup := (Mutation.upserted_eq ha).trans hr
      exact announce_ok hp hs hup h
  case withdraw.some.some scope p =>
    subst hpp
    cases h
    rcases db.withdraw_cases m scope p _ includeDeltas with ⟨hdb, hnot⟩ | ⟨_, hid, howns, hdb⟩
    · rw [hdb]
      refine .ignored hp hs ha fun route hroute => ?_
      cases hfind : db.identities.find? route.identity.id with
      | none => exact .inr rfl
      | some identity =>
        exact .inl (hnot identity.id (by rw [hroute, Option.bind_some, hfind]; rfl))
    · rw [hdb]
      obtain ⟨route, hroute, hfind⟩ := Option.bind_eq_some_iff.mp hid
      obtain ⟨identity, hident, rfl⟩ := Option.map_eq_some_iff.mp hfind
      have hsame : identity.id = route.identity.id := Table.key_of_find? hident
      rw [hsame]
      exact .withdrawn hp hs ha hroute howns
  case markEor.some.none scope | markEor.some.some scope _ =>
    cases h
    exact .markedEor hs ha
  case markTimeout.some.none scope | markTimeout.some.some scope _ =>
    cases h
    exact .markedTimeout hs ha
  case close.none.none | close.none.some | close.some.none | close.some.some =>
    cases h
    exact .closed ha
  case sample.none.none | sample.none.some | sample.some.none | sample.some.some =>
    cases h
    exact .sampled ha
  case nothing.none.none | nothing.none.some | nothing.some.none | nothing.some.some =>
    obtain rfl := Except.ok.inj h
    exact .nothing (.inl ha)
  all_goals cases h

variable {hint : Hint κ} {x : Db κ × Bool × Option (Delta κ)}

/-- A mutation is a replay, or its source, connection and scope are resolved and its event has
its effect. -/
theorem applyFilled_ok (h : db.applyFilled m includeDeltas hint = .ok x) :
    (db.isReplay m = true ∧ x = (db.addGcCandidates hint.candidates, false, none)) ∨
      db.isReplay m = false ∧ x.2.1 = true ∧ ∃ partition written, m.partition = .ok partition ∧
        (db.resolveContext m).resolveScope m partition hint.skipScope = .ok written ∧
        written.Effect m includeDeltas x.1 := by
  obtain ⟨partition, hp, h⟩ := Control.bind_ok.mp h
  split at h
  · rename_i hr
    exact .inl ⟨hr, (Except.ok.inj h).symm⟩
  · rename_i hr
    obtain ⟨written, hscope, h⟩ := Control.bind_ok.mp h
    obtain ⟨⟨_, _⟩, hevent, h⟩ := Control.bind_ok.mp h
    cases h
    rw [Bool.not_eq_true] at hr
    exact .inr ⟨hr, rfl, partition, written, hp, hscope, applyEvent_ok hp hevent⟩

variable {db' : Db κ}

theorem Effect.withObjects (h : db.Effect m includeDeltas db') : db'.withObjects db = db' := by
  cases h <;> rfl

/-- A mutation inserts no shared rows but its own. -/
theorem withObjects_of_applyFilled (h : db.applyFilled m includeDeltas hint = .ok x) :
    x.1.withObjects db = x.1 := by
  rcases applyFilled_ok h with ⟨-, rfl⟩ | ⟨-, -, _, _, -, hscope, heff⟩
  · rfl
  · have h1 := withObjects_of_sameRoutes (sameRoutes_resolveScope hscope)
    have h2 := withObjects_of_sameRoutes (db.sameRoutes_resolveContext m)
    rw [← heff.withObjects, ← h1, ← h2]
    rfl

/-! ## The shared rows of current routes stay -/

theorem Effect.mem_routes (h : db.Effect m includeDeltas db') {r : CurrentRoute κ}
    (hr : r ∈ db'.routes.rows) : (∃ old ∈ db.routes.rows, r.refs = old.refs ∧ r.key = old.key) ∨
      ∃ scope p route, m.partition = .ok (some p) ∧ m.scope = some scope ∧
        m.upserted = some route ∧ r = (m.routeParams scope p route).row := by
  cases h with
  | nothing | rejected | ignored | markedEor | markedTimeout | closed | sampled =>
    exact .inl ⟨r, hr, rfl, rfl⟩
  | @refreshed scope p route =>
    obtain ⟨old, hold, rfl⟩ := List.mem_map.mp hr
    exact .inl ⟨old, hold, db.refs_refreshRow _ old, db.key_refreshRow _ old⟩
  | @announced scope p route hp hscope hroute =>
    rcases Table.mem_upsert_rows hr with rfl | hold
    · exact .inr ⟨scope, p, route, hp, hscope, hroute, rfl⟩
    · exact .inl ⟨r, hold, rfl, rfl⟩
  | withdrawn => exact .inl ⟨r, List.mem_of_mem_filter hr, rfl, rfl⟩

theorem Refers.effect (href : db.Refers) (hm : db.HasObjectsOf m)
    (h : db.Effect m includeDeltas db') : db'.Refers := by
  intro r hr o ho
  rw [← h.withObjects]
  rcases h.mem_routes hr with ⟨old, hold, hrefs, hkey⟩ | ⟨_, p, route, -, -, hroute, rfl⟩
  · exact href old hold o ((CurrentRoute.refersTo_congr hrefs hkey o).mp ho)
  · obtain ⟨hident, hpay, hattr⟩ := hm route hroute
    cases o with
    | identity id =>
      obtain rfl : route.identity.id = id := ho
      exact hident
    | payload json =>
      obtain rfl : route.routeJson = json := ho
      exact hpay
    | «attribute» id => exact hattr id ho

theorem Refers.applyFilled (href : db.Refers) (hm : db.HasObjectsOf m)
    (h : db.applyFilled m includeDeltas hint = .ok x) : x.1.Refers := by
  rcases applyFilled_ok h with ⟨-, rfl⟩ | ⟨-, -, _, _, -, hscope, heff⟩
  · exact (SameRoutes.mk rfl rfl rfl rfl).refers href
  · have h1 := db.sameRoutes_resolveContext m
    have h2 := sameRoutes_resolveScope hscope
    exact (h2.refers (h1.refers href)).effect (h2.hasObjectsOf (h1.hasObjectsOf hm)) heff

/-! ## Inserting shared rows ahead -/

/-- The database with the shared rows of the announced routes. -/
def fill (db : Db κ) (ms : List (Mutation κ)) : Db κ := ms.foldl insertObjects db

theorem insertObjects_eq (db : Db κ) (m : Mutation κ) :
    db.insertObjects m = db.withObjects (db.insertObjects m) := by
  unfold insertObjects
  cases m.upserted <;> rfl

/-- Inserting shared rows looks at no other table. -/
theorem insertObjects_withObjects (db other : Db κ) (m : Mutation κ) :
    (db.withObjects other).insertObjects m = db.withObjects (other.insertObjects m) := by
  unfold insertObjects
  cases m.upserted <;> rfl

theorem fill_withObjects (db other : Db κ) (ms : List (Mutation κ)) :
    (db.withObjects other).fill ms = db.withObjects (other.fill ms) := by
  induction ms generalizing other with
  | nil => rfl
  | cons m ms ih =>
    show ((db.withObjects other).insertObjects m).fill ms = _
    rw [insertObjects_withObjects, ih]
    rfl

theorem fill_eq (db : Db κ) (ms : List (Mutation κ)) : db.fill ms = db.withObjects (db.fill ms) :=
  fill_withObjects db db ms

/-- A mutation after which the shared rows are the same leaves the same ones to insert. -/
theorem fill_of_withObjects (h : db'.withObjects db = db') (ms : List (Mutation κ)) :
    db'.fill ms = db'.withObjects (db.fill ms) := by
  conv_lhs => rw [← h, fill_withObjects]

theorem ObjectsIn.refl (db : Db κ) : db.ObjectsIn db :=
  ⟨fun _ _ h => h, fun _ _ h => h, fun _ _ h => h⟩

theorem ObjectsIn.trans {a b c : Db κ} (h : a.ObjectsIn b) (h' : b.ObjectsIn c) : a.ObjectsIn c :=
  ⟨fun id row hr => h'.identities id row (h.identities id row hr),
    fun id row hr => h'.payloads id row (h.payloads id row hr),
    fun id row hr => h'.attributes id row (h.attributes id row hr)⟩

theorem objectsIn_insertObjects (db : Db κ) (m : Mutation κ) :
    db.ObjectsIn (db.insertObjects m) := by
  unfold insertObjects
  cases m.upserted with
  | none => exact .refl db
  | some route =>
    refine ⟨fun id row h => Table.find?_insert_of_some h,
      fun id row h => Table.find?_insert_of_some h,
      fun id row h => ?_⟩
    dsimp only
    cases route.attribute? with
    | none => exact h
    | some _ => exact Table.find?_insert_of_some h

theorem objectsIn_fill (db : Db κ) (ms : List (Mutation κ)) : db.ObjectsIn (db.fill ms) := by
  induction ms generalizing db with
  | nil => exact .refl db
  | cons m _ ih => exact (db.objectsIn_insertObjects m).trans (ih _)

theorem ObjectsIn.hasObject {other : Db κ} (h : db.ObjectsIn other) {o : SharedObject κ}
    (ho : db.HasObject o) : other.HasObject o := by
  cases o with
  | identity id =>
    obtain ⟨row, hrow⟩ := Option.isSome_iff_exists.mp ho
    exact Option.isSome_iff_exists.mpr ⟨row, h.identities id row hrow⟩
  | payload json =>
    obtain ⟨row, hrow⟩ := Option.isSome_iff_exists.mp ho
    exact Option.isSome_iff_exists.mpr ⟨row, h.payloads json row hrow⟩
  | «attribute» id =>
    obtain ⟨row, hrow⟩ := Option.isSome_iff_exists.mp ho
    exact Option.isSome_iff_exists.mpr ⟨row, h.attributes id row hrow⟩

theorem hasObjectsOf_insertObjects (db : Db κ) (m : Mutation κ) :
    (db.insertObjects m).HasObjectsOf m := by
  intro route hroute
  unfold insertObjects
  rw [hroute]
  refine ⟨db.identities.find?_insert_isSome route.identity,
    db.payloads.find?_insert_isSome route.routeJson, fun id hid => ?_⟩
  obtain ⟨attr, hattr, rfl⟩ := Option.map_eq_some_iff.mp hid
  dsimp only [HasObject]
  rw [hattr]
  exact db.attributes.find?_insert_isSome attr

end Db

end Bmp.Store
