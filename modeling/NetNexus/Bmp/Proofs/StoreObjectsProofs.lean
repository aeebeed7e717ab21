import NetNexus.Bmp.Proofs.StoreBatchProofs

/-!
# Shared rows that are not needed make no difference

A mutation reads only shared rows of current routes and of its own route. If those are there, then
more of them change nothing in what the mutation does.
-/

namespace Bmp.Store

open Option

variable {κ : Type}

namespace Db

/-- The database with other shared rows. -/
def withObjects (db other : Db κ) : Db κ :=
  { db with
    identities := other.identities
    payloads := other.payloads
    attributes := other.attributes }

/-- The current routes and the shared rows are the same. -/
structure SameRoutes (db db' : Db κ) : Prop where
  routes : db'.routes = db.routes
  identities : db'.identities = db.identities
  payloads : db'.payloads = db.payloads
  attributes : db'.attributes = db.attributes

theorem withObjects_of_sameRoutes {db db' : Db κ} (h : db.SameRoutes db') :
    db'.withObjects db = db' := by
  unfold withObjects
  rw [← h.identities, ← h.payloads, ← h.attributes]

variable [DecidableEq κ]

/-- The shared row is there. -/
def HasObject (db : Db κ) : SharedObject κ → Prop
  | .identity id => (db.identities.find? id).isSome
  | .payload json => (db.payloads.find? json).isSome
  | .attribute id => (db.attributes.find? id).isSome

/-- The shared rows that current routes refer to are there. -/
def Refers (db : Db κ) : Prop := ∀ r ∈ db.routes.rows, ∀ o, r.RefersTo o → db.HasObject o

/-- The shared rows of the announced route of a mutation are there. -/
def HasObjectsOf (db : Db κ) (m : Mutation κ) : Prop :=
  ∀ route, m.upserted = some route → db.HasObject (.identity route.identity.id) ∧
    db.HasObject (.payload route.routeJson) ∧
    ∀ id, route.attrPk = some id → db.HasObject (.attribute id)

/-- The rows of the first database are in the second one. -/
structure ObjectsIn (db other : Db κ) : Prop where
  identities : ∀ id row, db.identities.find? id = some row → other.identities.find? id = some row
  payloads : ∀ id row, db.payloads.find? id = some row → other.payloads.find? id = some row
  attributes : ∀ id row, db.attributes.find? id = some row → other.attributes.find? id = some row

section Frame

variable {db db' other : Db κ} {m : Mutation κ} {partition : Option RoutePartition}

namespace ObjectsIn

variable (h : db.ObjectsIn other)
include h

theorem identities_eq {id : κ}
    (hid : db.HasObject (.identity id)) : other.identities.find? id = db.identities.find? id := by
  obtain ⟨row, hrow⟩ := Option.isSome_iff_exists.mp hid
  rw [hrow]
  exact h.identities id row hrow

theorem payloads_eq {json : κ}
    (hid : db.HasObject (.payload json)) : other.payloads.find? json = db.payloads.find? json := by
  obtain ⟨row, hrow⟩ := Option.isSome_iff_exists.mp hid
  rw [hrow]
  exact h.payloads json row hrow

theorem attributes_eq {id : κ} (hid : db.HasObject (.attribute id)) :
    other.attributes.find? id = db.attributes.find? id := by
  obtain ⟨row, hrow⟩ := Option.isSome_iff_exists.mp hid
  rw [hrow]
  exact h.attributes id row hrow

end ObjectsIn

namespace SameRoutes

variable (h : db.SameRoutes db')
include h

theorem hasObject (o : SharedObject κ) : db'.HasObject o = db.HasObject o := by
  unfold HasObject
  rw [h.identities, h.payloads, h.attributes]

theorem refers (hrefers : db.Refers) : db'.Refers := by
  intro r hr o ho
  rw [h.routes] at hr
  rw [h.hasObject]
  exact hrefers r hr o ho

theorem hasObjectsOf (hm : db.HasObjectsOf m) : db'.HasObjectsOf m := by
  intro route hroute
  simp only [h.hasObject]
  exact hm route hroute

theorem objectsIn (hin : db.ObjectsIn other) : db'.ObjectsIn other := by
  refine ⟨?_, ?_, ?_⟩
  · rw [h.identities]
    exact hin.identities
  · rw [h.payloads]
    exact hin.payloads
  · rw [h.attributes]
    exact hin.attributes

end SameRoutes

/-! ## Contexts -/

theorem sameRoutes_resolveContext (db : Db κ) (m : Mutation κ) :
    db.SameRoutes (db.resolveContext m) := by
  unfold resolveContext
  cases m.sequence <;> exact ⟨rfl, rfl, rfl, rfl⟩

theorem resolveScope_ok {skip : Bool} (h : db.resolveScope m partition skip = .ok db') :
    (db' = db ∧ (m.scope = none ∨ partition = none)) ∨
      ∃ scope p, m.scope = some scope ∧ partition = some p ∧
        (∀ row, db.scopes.find? scope.id = some row →
          row.validation = scope.validation m.source.id p) ∧
        db' = (if skip then db else db.upsertScope (m.scopeParams scope p)) ∧
        (db'.scopes.find? scope.id).isSome := by
  unfold resolveScope at h
  cases hs : m.scope with
  | none =>
    rw [hs] at h
    exact .inl ⟨(Except.ok.inj h).symm, .inl rfl⟩
  | some scope =>
    cases partition with
    | none =>
      rw [hs] at h
      exact .inl ⟨(Except.ok.inj h).symm, .inr rfl⟩
    | some p =>
      simp only [hs] at h
      obtain ⟨hvalid, h⟩ := Control.ite_error_eq_ok.mp h
      obtain ⟨hsome, h⟩ := Control.ite_error_eq_ok.mp h
      cases h
      refine .inr ⟨scope, p, rfl, rfl, fun row hrow => ?_, rfl, ?_⟩
      · simpa [hrow] using hvalid
      · simpa [isSome_iff_ne_none] using hsome

theorem sameRoutes_resolveScope {skip : Bool} (h : db.resolveScope m partition skip = .ok db') :
    db.SameRoutes db' := by
  rcases resolveScope_ok h with ⟨rfl, -⟩ | ⟨-, p, -, -, -, rfl, -⟩
  · exact ⟨rfl, rfl, rfl, rfl⟩
  · cases skip <;> exact ⟨rfl, rfl, rfl, rfl⟩

theorem resolveContext_withObjects (db other : Db κ) (m : Mutation κ) :
    (db.withObjects other).resolveContext m = (db.resolveContext m).withObjects other := by
  unfold resolveContext
  cases m.sequence <;> rfl

theorem resolveScope_withObjects (db other : Db κ) (m : Mutation κ)
    (partition : Option RoutePartition) (skip : Bool) :
    (db.withObjects other).resolveScope m partition skip =
      (db.resolveScope m partition skip).map fun x => x.withObjects other := by
  unfold resolveScope
  cases m.scope with
  | none => rfl
  | some scope =>
    cases partition with
    | none => rfl
    | some p =>
      dsimp only
      have hscs : (db.withObjects other).scopes = db.scopes := rfl
      have hwr : (if skip then db.withObjects other
          else (db.withObjects other).upsertScope (m.scopeParams scope p)) =
          (if skip then db else db.upsertScope (m.scopeParams scope p)).withObjects other := by
        cases skip <;> rfl
      rw [hscs, hwr]
      generalize (if skip then db else db.upsertScope _) = written
      have hwrittenScopes : (written.withObjects other).scopes = written.scopes := rfl
      rw [hwrittenScopes]
      split
      · rfl
      · split <;> rfl

/-! ## Events -/

theorem deleteRoutes_of_none {p : CurrentRoute κ → Bool} (h : ∀ r ∈ db.routes.rows, p r = false) :
    db.deleteRoutes p = db := by
  have hkept : db.routes.filter (fun r => !p r) = db.routes :=
    Table.eq_of_rows (List.filter_eq_self.mpr fun r hr => by rw [h r hr]; rfl)
  have hnone : db.routes.rows.filter p = [] :=
    List.filter_eq_nil_iff.mpr fun r hr => by rw [h r hr]; exact Bool.false_ne_true
  unfold deleteRoutes
  rw [hkept, hnone]
  rfl

theorem withdraw_of_none {key : κ} {scope : Scope κ} {p : RoutePartition}
    (h : db.routes.find? ⟨p, scope.id, key⟩ = none) (includeDeltas : Bool) :
    db.withdraw m scope p (some key) includeDeltas = db.withdraw m scope p none includeDeltas := by
  have hfind : db.findCurrentRoute ⟨p, scope.id, key⟩ = none := by
    unfold findCurrentRoute
    rw [h]
    rfl
  have hdel : db.deleteRoute ⟨p, scope.id, key⟩ = db := by
    refine deleteRoutes_of_none fun r hr => decide_eq_false fun hkey => ?_
    rw [← hkey, Table.mem_rows_iff.mp hr] at h
    cases h
  have hrow : db.withdrawRoute ⟨p, scope.id, key⟩ m.connection.id scope.epoch = (db, none) := by
    unfold withdrawRoute
    rw [hdel, h, ite_self]
  unfold withdraw
  dsimp only [map_some, bind_some]
  rw [hfind, hrow]
  rfl

/-- A route whose identity is not known is not a current one. -/
theorem Refers.find?_routes_eq_none (hrefers : db.Refers) {key : RouteKey κ}
    (h : db.identities.find? key.route = none) : db.routes.find? key = none := by
  cases hr : db.routes.find? key with
  | none => rfl
  | some r =>
    have hkey : r.key = key := Table.key_of_find? hr
    have hhas := hrefers r (Table.find?_eq_some_iff.mp hr).1 (.identity key.route)
      (by rw [← hkey]; rfl)
    rw [show db.HasObject _ = (_ = true)
      from rfl, h] at hhas
    cases hhas

variable (hrefers : db.Refers) (h : db.ObjectsIn other)
include h

theorem validateInsert_withObjects {key : RouteKey κ} (hid : db.HasObject (.identity key.route)) :
    (db.withObjects other).validateInsert key = db.validateInsert key := by
  unfold validateInsert
  dsimp only [withObjects]
  rw [h.identities_eq hid]

theorem upsertRoute_withObjects {p : RouteParams κ} (hid : db.HasObject (.identity p.key.route)) :
    (db.withObjects other).upsertRoute p =
      (db.upsertRoute p).map fun x => (x.1.withObjects other, x.2) := by
  have hvalid := validateInsert_withObjects h hid
  have howns : (db.withObjects other).ownsScope = db.ownsScope := rfl
  have hrts : (db.withObjects other).routes = db.routes := rfl
  unfold upsertRoute
  rw [hvalid, howns, hrts]
  split
  · rfl
  · split
    · rfl
    · split
      · split <;> rfl
      · rfl

include hrefers

theorem findCurrentRoute_withObjects
    (key : RouteKey κ) : (db.withObjects other).findCurrentRoute key = db.findCurrentRoute key := by
  show (db.routes.find? key >>= fun r => _) = (db.routes.find? key >>= fun r => _)
  cases hr : db.routes.find? key with
  | none => rfl
  | some r =>
    have hmem := (Table.find?_eq_some_iff.mp hr).1
    have hkey : r.key = key := Table.key_of_find? hr
    have hident := h.identities_eq (hrefers r hmem (.identity key.route) (by rw [← hkey]; rfl))
    have hpay := h.payloads_eq (hrefers r hmem _ rfl)
    have hattr : r.attr.bind other.attributes.find? = r.attr.bind db.attributes.find? := by
      cases ha : r.attr with
      | none => rfl
      | some _ => exact h.attributes_eq (hrefers r hmem _ ha)
    show (other.identities.find? key.route >>= fun identity => _) =
      (db.identities.find? key.route >>= fun identity => _)
    rw [hident]
    dsimp only [withObjects]
    rw [hpay, hattr]

theorem announce_withObjects (m : Mutation κ)
    (scope : Scope κ) (p : RoutePartition) {route : Route κ}
    (hid : db.HasObject (.identity route.identity.id)) (includeDeltas : Bool) :
    (db.withObjects other).announce m scope p route includeDeltas =
      (db.announce m scope p route includeDeltas).map fun x => (x.1.withObjects other, x.2) := by
  have hfind := findCurrentRoute_withObjects hrefers h
  have hprev : ∀ key previous, (db.withObjects other).previousRow key previous includeDeltas =
      db.previousRow key previous includeDeltas := by
    intro key previous
    unfold previousRow
    rw [hfind]
  have hups := upsertRoute_withObjects h (p := m.routeParams scope p route) hid
  have hrts : (db.withObjects other).routes = db.routes := rfl
  unfold announce announceRoute
  dsimp only
  rw [hrts, hprev, hups]
  split
  · rfl
  · cases db.upsertRoute _ <;> rfl

theorem withdraw_withObjects (m : Mutation κ)
    (scope : Scope κ) (p : RoutePartition) (routePk : Option κ) (includeDeltas : Bool) :
    (db.withObjects other).withdraw m scope p routePk includeDeltas =
      ((db.withdraw m scope p routePk includeDeltas).1.withObjects other,
        (db.withdraw m scope p routePk includeDeltas).2) := by
  have hfind : (db.withObjects other).findCurrentRoute = db.findCurrentRoute :=
    funext fun key => findCurrentRoute_withObjects hrefers h key
  unfold withdraw
  rw [hfind]
  cases routePk with
  | none => rfl
  | some _ =>
    dsimp only [map_some, withdrawRoute]
    have howns : (db.withObjects other).ownsScope = db.ownsScope := rfl
    rw [howns]
    cases db.ownsScope p scope.id m.connection.id scope.epoch <;> rfl

theorem applyEvent_withObjects
    (hm : db.HasObjectsOf m) (partition : Option RoutePartition) (includeDeltas : Bool) :
    (db.withObjects other).applyEvent m partition includeDeltas =
      (db.applyEvent m partition includeDeltas).map fun x => (x.1.withObjects other, x.2) := by
  unfold applyEvent
  cases ha : m.eventType.action <;> cases hs : m.scope <;> cases partition <;> dsimp only
  case announce.some.some scope p =>
    cases hr : m.route with
    | none =>
      show (db.announceNothing m scope p includeDeltas >>= _) = _
      cases db.announceNothing m scope p includeDeltas <;> rfl
    | some route =>
      have hup := (Mutation.upserted_eq ha).trans hr
      exact announce_withObjects hrefers h m scope p (hm route hup).1 includeDeltas
  case withdraw.some.some scope p =>
    cases hr : m.route with
    | none => exact congrArg Except.ok (withdraw_withObjects hrefers h m scope p none includeDeltas)
    | some route =>
      refine congrArg Except.ok ?_
      have hsame := withdraw_withObjects hrefers h m scope p
        ((db.identities.find? route.identity.id).map Identity.id) includeDeltas
      show (db.withObjects other).withdraw m scope p
        ((other.identities.find? route.identity.id).map Identity.id) includeDeltas = _
      refine Eq.trans ?_ hsame
      cases hfind : db.identities.find? route.identity.id with
      | some identity => rw [h.identities _ identity hfind]
      | none =>
        -- the identity may be known now, but no current route has it
        have hnone : (db.withObjects other).routes.find? ⟨p, scope.id, route.identity.id⟩ = none :=
          hrefers.find?_routes_eq_none hfind
        cases hother : other.identities.find? route.identity.id with
        | none => rfl
        | some identity =>
          have hid : identity.id = route.identity.id := Table.key_of_find? hother
          rw [map_some, hid]
          exact withdraw_of_none hnone includeDeltas
  all_goals rfl

/-- A mutation whose shared rows are there does the same if there are more of them. -/
theorem applyFilled_withObjects (hm : db.HasObjectsOf m) (includeDeltas : Bool) (hint : Hint κ) :
    (db.withObjects other).applyFilled m includeDeltas hint =
      (db.applyFilled m includeDeltas hint).map fun x => (x.1.withObjects other, x.2) := by
  unfold applyFilled
  cases m.partition with
  | error e => rfl
  | ok partition =>
    show (if db.isReplay m then _ else _) = Except.map _ (if db.isReplay m then _ else _)
    split
    · rfl
    · rw [resolveContext_withObjects, resolveScope_withObjects]
      have hctx := db.sameRoutes_resolveContext m
      cases hscope : (db.resolveContext m).resolveScope m partition hint.skipScope with
      | error e => rfl
      | ok written =>
        have hwr := sameRoutes_resolveScope hscope
        have hevent := applyEvent_withObjects (hwr.refers (hctx.refers hrefers))
          (hwr.objectsIn (hctx.objectsIn h)) (hwr.hasObjectsOf (hctx.hasObjectsOf hm))
          partition includeDeltas
        show (written.withObjects other).applyEvent m partition includeDeltas >>= _ = _
        rw [hevent]
        show _ = Except.map _ (written.applyEvent m partition includeDeltas >>= _)
        cases written.applyEvent m partition includeDeltas <;> rfl

end Frame

end Db

end Bmp.Store
