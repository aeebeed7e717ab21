import NetNexus.Bmp.Proofs.StoreInvariantProofs

/-!
# No shared row is lost

The shared rows that no current route refers to are known to the collector, if every connection
keeps to one source. Purging a source then leaves no current route without its connection.
-/

namespace Bmp.Store

open List Store.CurrentRoute

variable {κ : Type}

/-- The announced route of the mutation refers to the shared row. -/
def Mutation.Announces (m : Mutation κ) (o : SharedObject κ) : Prop :=
  ∃ route, m.upserted = some route ∧
    (o = .identity route.identity.id ∨ o = .payload route.routeJson ∨
      ∃ id, route.attrPk = some id ∧ o = .attribute id)

variable {o : SharedObject κ}

theorem Mutation.refersTo_of_announces (m : Mutation κ) (scope : Scope κ) (p : RoutePartition)
    {route : Route κ} (hroute : m.upserted = some route) (h : m.Announces o) :
    (m.routeParams scope p route).row.RefersTo o := by
  obtain ⟨_, hroute', hcases⟩ := h
  rw [hroute] at hroute'
  cases hroute'
  rcases hcases with rfl | rfl | ⟨_, hid, rfl⟩
  · rfl
  · rfl
  · exact hid

/-- Every connection of a batch is used with the source that it belongs to. -/
def Call.KeepsSources (sourceOf : κ → κ) (call : Call κ) : Prop :=
  ∀ batch, call = .applyBatch batch → ∀ m ∈ batch.mutations, m.source.id = sourceOf m.connection.id

variable {m : Mutation κ}

theorem Mutation.not_announces (h : m.upserted = none) (o : SharedObject κ) : ¬ m.Announces o := by
  rintro ⟨_, hroute, -⟩
  rw [h] at hroute
  cases hroute

/-- What a row refers to and the other row does not is a candidate. -/
theorem CurrentRoute.refersTo_or_mem {a b : CurrentRoute κ} {c c' : Prop} [Decidable c]
    [Decidable c'] (hroute : a.key.route = b.key.route) (hc : c → a.payload = b.payload)
    (hc' : c' → a.attr = b.attr) (h : a.RefersTo o) :
    b.RefersTo o ∨ o ∈ Store.gcCandidates none (if c then none else some a.payload)
      (if c' then none else a.attr) := by
  cases o with
  | identity _ => exact .inl (hroute.symm.trans h)
  | payload json =>
    by_cases hsame : c
    · exact .inl ((hc hsame).symm.trans h)
    · exact .inr (mem_gcCandidates.mpr (.inr (.inl ⟨json, (if_neg hsame).trans (congrArg some h),
        rfl⟩)))
  | «attribute» id =>
    by_cases hsame : c'
    · exact .inl ((hc' hsame).symm.trans h)
    · exact .inr (mem_gcCandidates.mpr (.inr (.inr ⟨id, (if_neg hsame).trans h, rfl⟩)))

variable [DecidableEq κ]

variable {objects : List (SharedObject κ)} {partition : Option RoutePartition}
  {rest : List (Mutation κ)}

namespace Db

/-- The connections of current routes are there. -/
def Connected (db : Db κ) : Prop :=
  ∀ r ∈ db.routes.rows, (db.connections.find? r.connection).isSome

/-- The shared rows that no current route refers to are known to the collector or have the
property. -/
def CollectableOr (db : Db κ) (q : SharedObject κ → Prop) : Prop :=
  ∀ o, db.HasObject o → db.isReferenced o = false → o ∈ db.gcCandidates.rows ∨ q o

/-- The collector knows the shared rows that no current route refers to. -/
def Collectable (db : Db κ) : Prop :=
  ∀ o, db.HasObject o → db.isReferenced o = false → o ∈ db.gcCandidates.rows

/-- The collector knows them but for those that the mutation is about to refer to. -/
def CollectableBut (db : Db κ) (m : Mutation κ) : Prop := db.CollectableOr m.Announces

/-! ## Candidates -/

variable {db db' : Db κ} {o : SharedObject κ} {m : Mutation κ} {includeDeltas : Bool}

theorem mem_addGcCandidates :
    o ∈ (db.addGcCandidates objects).gcCandidates.rows ↔ o ∈ objects ∨ o ∈ db.gcCandidates.rows :=
  Table.mem_foldl_insert_id

theorem isReferenced_iff : db.isReferenced o = true ↔ ∃ r ∈ db.routes.rows, r.RefersTo o := by
  unfold isReferenced
  simp

theorem isReferenced_congr (h : db'.routes = db.routes) (o : SharedObject κ) :
    db'.isReferenced o = db.isReferenced o := by
  unfold isReferenced
  rw [h]

theorem CollectableOr.congr {q : SharedObject κ → Prop} (h : db.CollectableOr q)
    (hsame : db.SameRoutes db') (hcands : db'.gcCandidates = db.gcCandidates) :
    db'.CollectableOr q := by
  intro o ho hnot
  rw [hsame.hasObject] at ho
  rw [isReferenced_congr hsame.routes] at hnot
  rw [hcands]
  exact h o ho hnot

theorem collectable_iff : db.Collectable ↔ db.CollectableOr fun _ => False :=
  forall_congr' fun _ => by rw [or_false]

namespace Collectable

variable (h : db.Collectable)
include h

theorem congr (hsame : db.SameRoutes db')
    (hcands : db'.gcCandidates = db.gcCandidates) : db'.Collectable :=
  collectable_iff.mpr ((collectable_iff.mp h).congr hsame hcands)

theorem deleteRoutes (p : CurrentRoute κ → Bool)
    (hobjs : ∀ r ∈ db.routes.rows, p r = true → ∀ o, r.RefersTo o → o ∈ objects) :
    ((db.deleteRoutes p).addGcCandidates objects).Collectable := by
  intro o ho hnot
  have hhas : db.HasObject o := by cases o <;> exact ho
  refine mem_addGcCandidates.mpr ?_
  cases hr : db.isReferenced o with
  | false => exact .inr (h o hhas hr)
  | true =>
    obtain ⟨r, hmem, href⟩ := isReferenced_iff.mp hr
    cases hp : p r with
    | true => exact .inl (hobjs r hmem hp o href)
    | false =>
      have hkept : ((db.deleteRoutes p).addGcCandidates objects).isReferenced o = true :=
        isReferenced_iff.mpr ⟨r, mem_filter.mpr ⟨hmem, by rw [hp]; rfl⟩, href⟩
      rw [hnot] at hkept
      cases hkept

theorem deleteRoute (key : RouteKey κ) : ((db.deleteRoute key).addGcCandidates
      ((db.routes.find? key).toList.flatMap CurrentRoute.gcCandidates)).Collectable := by
  refine h.deleteRoutes _ fun r hr hkey o ho => ?_
  rw [Table.find?_eq_some_iff.mpr ⟨hr, of_decide_eq_true hkey⟩]
  exact mem_flatMap.mpr ⟨r, mem_singleton_self r, mem_gcCandidates_row.mpr ho⟩

/-- What the collector did not look at stays a candidate. -/
theorem collectGarbage (limit : ℕ) : (db.collectGarbage limit).Collectable := by
  intro o ho hnot
  have hnot' : db.isReferenced o = false := hnot
  obtain ⟨hhas, hwork⟩ := (db.hasObject_collectGarbage limit o).mp ho
  refine mem_filter.mpr ⟨h o hhas hnot', ?_⟩
  have hmem : o ∉ db.gcWork limit := fun hmem => by
    rw [hwork hmem] at hnot'
    cases hnot'
  simp [hmem]

end Collectable

/-! ## The row that is replaced -/

theorem previousRow_some {key : RouteKey κ} {refs : RouteRefs κ}
    (h : (db.previousRow key ((db.routes.find? key).map CurrentRoute.refs) includeDeltas).1 =
      some refs) : ∃ r, db.routes.find? key = some r ∧ r.refs = refs := by
  cases hr : db.routes.find? key with
  | none =>
    rw [hr] at h
    cases includeDeltas <;> cases h
  | some r =>
    refine ⟨r, rfl, ?_⟩
    rw [hr] at h
    cases includeDeltas with
    | false => exact Option.some_inj.mp h
    | true =>
      obtain ⟨x, hx, rfl⟩ := Option.map_eq_some_iff.mp h
      unfold findCurrentRoute at hx
      rw [hr] at hx
      simp only [Option.bind_eq_bind, Option.bind_some, Option.bind_eq_some_iff] at hx
      obtain ⟨_, -, _, -, _, -, -, -, hx⟩ := hx
      cases hx
      rfl

theorem previousRow_of_some (href : db.Refers) (hplc : db.Placed) (hconnected : db.Connected)
    {key : RouteKey κ} {r : CurrentRoute κ} (h : db.routes.find? key = some r)
    (includeDeltas : Bool) :
    (db.previousRow key ((db.routes.find? key).map CurrentRoute.refs) includeDeltas).1 =
      some r.refs := by
  obtain ⟨hmem, hkey⟩ := Table.find?_eq_some_iff.mp h
  unfold previousRow
  rw [h]
  cases includeDeltas with
  | false => rfl
  | true =>
    obtain ⟨_, hident⟩ := Option.isSome_iff_exists.mp
      (href r hmem (.identity key.route) (by rw [← hkey]; rfl))
    obtain ⟨_, hpay⟩ := Option.isSome_iff_exists.mp
      (href r hmem (.payload r.payload) rfl)
    obtain ⟨_, hscope, -⟩ := hplc r hmem
    obtain ⟨_, hconn⟩ := Option.isSome_iff_exists.mp (hconnected r hmem)
    rw [hkey] at hscope
    unfold findCurrentRoute
    simp only [h, hident, hpay, hscope, hconn, Option.bind_eq_bind, Option.bind_some]
    rfl

/-! ## Events -/

namespace CollectableBut

variable (h : db.CollectableBut m)
include h

theorem collectable (hm : m.upserted = none) : db.Collectable :=
  fun o ho hnot => (h o ho hnot).resolve_right (m.not_announces hm o)

theorem step (hobjs : ∀ o, db'.HasObject o → db.HasObject o)
    (hcands : ∀ o ∈ db.gcCandidates.rows, o ∈ db'.gcCandidates.rows)
    (hrefe : ∀ o, db.isReferenced o = true →
      db'.isReferenced o = true ∨ o ∈ db'.gcCandidates.rows)
    (hannounced : ∀ o, m.Announces o → db'.isReferenced o = true ∨ o ∈ db'.gcCandidates.rows) :
    db'.Collectable := by
  intro o ho hnot
  have hcases : db'.isReferenced o = true ∨ o ∈ db'.gcCandidates.rows := by
    cases hr : db.isReferenced o with
    | true => exact hrefe o hr
    | false =>
      rcases h o (hobjs o ho) hr with hmem | hann
      · exact .inr (hcands o hmem)
      · exact hannounced o hann
  rcases hcases with hr | hmem
  · rw [hnot] at hr
    cases hr
  · exact hmem

section

variable {params : RouteParams κ} (hparams : ∀ o, m.Announces o → params.row.RefersTo o)
include hparams

theorem announced (href : db.Refers)
    (hplc : db.Placed) (hconn : db.Connected) (includeDeltas : Bool) :
    ((db.writeRoute params.row).addGcCandidates (params.announcedCandidates (db.previousRow
      params.key ((db.routes.find? params.key).map CurrentRoute.refs) includeDeltas).1
      true)).Collectable := by
  have hnew : params.row ∈ (db.routes.upsert params.row).rows := Table.mem_upsert_self
  refine h.step (fun o ho => ?_) (fun o ho => mem_addGcCandidates.mpr (.inr ho)) (fun o ho => ?_)
    fun o ho => .inl (isReferenced_iff.mpr ⟨_, hnew, hparams o ho⟩)
  · cases o <;> exact ho
  · obtain ⟨r, hr, href'⟩ := isReferenced_iff.mp ho
    by_cases hkey : r.key = params.key
    · have hfind := Table.find?_eq_some_iff.mpr ⟨hr, hkey⟩
      have hprev := previousRow_of_some href hplc hconn hfind includeDeltas
      rw [hprev]
      have hcases : params.row.RefersTo o ∨
          o ∈ params.announcedCandidates (some r.refs) true := by
        simp only [RouteParams.announcedCandidates, ite_not]
        exact refersTo_or_mem (congrArg RouteKey.route hkey) id id href'
      exact hcases.imp (fun h => isReferenced_iff.mpr ⟨_, hnew, h⟩)
        fun h => mem_addGcCandidates.mpr (.inl h)
    · exact .inl (isReferenced_iff.mpr ⟨r, Table.mem_upsert_rows_iff.mpr (.inr ⟨hr, hkey⟩), href'⟩)

/-- A row that is not written leaves its own references to the collector, but for those of the
row that is there. -/
theorem rejected (includeDeltas : Bool) :
    (db.addGcCandidates (params.announcedCandidates (db.previousRow params.key
      ((db.routes.find? params.key).map CurrentRoute.refs)
        includeDeltas).1 false)).Collectable := by
  refine h.step (fun o ho => ?_) (fun o ho => mem_addGcCandidates.mpr (.inr ho))
    (fun o ho => .inl ho) fun o ho => ?_
  · cases o <;> exact ho
  · cases hprev : (db.previousRow params.key
        ((db.routes.find? params.key).map CurrentRoute.refs) includeDeltas).1 with
    | none =>
      refine .inr (mem_addGcCandidates.mpr (.inl ?_))
      exact mem_gcCandidates_row.mpr (hparams o ho)
    | some _ =>
      obtain ⟨r, hfind, rfl⟩ := previousRow_some hprev
      obtain ⟨hmem, hkey⟩ := Table.find?_eq_some_iff.mp hfind
      have hcases : r.RefersTo o ∨
          o ∈ params.announcedCandidates (some r.refs) false :=
        refersTo_or_mem (congrArg RouteKey.route hkey.symm) Eq.symm Eq.symm
          (hparams o ho)
      exact hcases.imp (fun h => isReferenced_iff.mpr ⟨r, hmem, h⟩)
        fun h => mem_addGcCandidates.mpr (.inl h)

end

theorem effect (href : db.Refers) (hplc : db.Placed)
    (hconn : db.Connected) (he : db.Effect m includeDeltas db') : db'.Collectable := by
  have hnone : m.eventType.action ≠ .announce → db.Collectable := fun hne =>
    h.collectable (Mutation.upserted_eq_none hne)
  cases he with
  | nothing hcases =>
    refine h.collectable ?_
    rcases hcases with hnoth | ⟨-, hroute⟩
    · exact Mutation.upserted_eq_none (by rw [hnoth]; decide)
    · unfold Mutation.upserted
      rw [hroute, ite_self]
  | @refreshed scope p route hp hscope hroute hsame =>
    obtain ⟨r, hfind, hrefs⟩ := Option.map_eq_some_iff.mp hsame
    obtain ⟨hmem, hkey⟩ := Table.find?_eq_some_iff.mp hfind
    have hkept : ∀ o, (∃ r ∈ db.routes.rows, r.RefersTo o) →
        (db.refreshRouteMetadata (m.routeParams scope p route)).isReferenced o = true := by
      rintro o ⟨r, hr, ho⟩
      refine isReferenced_iff.mpr ⟨_, mem_map_of_mem hr, ?_⟩
      exact (refersTo_congr (db.refs_refreshRow _ r) (db.key_refreshRow _ r) o).mpr ho
    refine h.step (fun o ho => ?_) (fun o ho => ho)
      (fun o ho => .inl (hkept o (isReferenced_iff.mp ho)))
      fun o ho => .inl (hkept o ⟨r, hmem, ?_⟩)
    · cases o <;> exact ho
    · exact (refersTo_congr hrefs hkey o).mpr (m.refersTo_of_announces _ _ hroute ho)
  | rejected _ _ hroute =>
    exact h.rejected (fun o => m.refersTo_of_announces _ _ hroute) includeDeltas
  | announced _ _ hroute =>
    exact h.announced (fun o => m.refersTo_of_announces _ _ hroute) href hplc hconn
      includeDeltas
  | ignored _ _ hact => exact hnone (by rw [hact]; decide)
  | withdrawn _ _ hact => exact (hnone (by rw [hact]; decide)).deleteRoute _
  | markedEor _ hact | markedTimeout _ hact | closed hact | _ hact =>
    exact (hnone (by rw [hact]; decide)).congr ⟨rfl, rfl, rfl, rfl⟩ rfl

end CollectableBut

/-! ## Connections -/

theorem Connected.mono (h : db.Connected)
    (hrts : ∀ r ∈ db'.routes.rows, ∃ old ∈ db.routes.rows, old.connection = r.connection)
    (hconns : ∀ id, (db.connections.find? id).isSome → (db'.connections.find? id).isSome) :
    db'.Connected := by
  intro r hr
  obtain ⟨old, hold, hconn⟩ := hrts r hr
  exact hconns _ (hconn ▸ h old hold)

theorem Connected.congr (h : db.Connected) (hrts : db'.routes = db.routes)
    (hconns : db'.connections = db.connections) : db'.Connected := by
  unfold Connected
  rw [hrts, hconns]
  exact h

theorem isSome_resolveContext (db : Db κ) (m : Mutation κ) {id : κ}
    (h : m.connection.id = id ∨ (db.connections.find? id).isSome) :
    ((db.resolveContext m).connections.find? id).isSome := by
  obtain ⟨_, -, hfind⟩ := db.find?_resolveContext m id
  rw [hfind, Option.isSome_map]
  split
  · rfl
  · exact h.resolve_left ‹_›

theorem resolveScope_frame {skip : Bool} (h : db.resolveScope m partition skip = .ok db') :
    db'.connections = db.connections ∧ db'.gcCandidates = db.gcCandidates := by
  rcases resolveScope_ok h with ⟨rfl, -⟩ | ⟨-, p, -, -, -, rfl, -⟩
  · exact ⟨rfl, rfl⟩
  · cases skip <;> exact ⟨rfl, rfl⟩

theorem Connected.effect (h : db.Connected) (hm : (db.connections.find? m.connection.id).isSome)
    (he : db.Effect m includeDeltas db') : db'.Connected := by
  cases he with
  | nothing | rejected | ignored | markedEor | markedTimeout | sampled => exact h.congr rfl rfl
  | refreshed =>
    refine h.mono (fun r hr => ?_) fun _ h => h
    obtain ⟨old, hold, rfl⟩ := mem_map.mp hr
    exact ⟨old, hold, (congrArg RouteRefs.connection (db.refs_refreshRow _ old)).symm⟩
  | announced =>
    intro r hr
    rcases Table.mem_upsert_rows hr with rfl | hold
    · exact hm
    · exact h r hold
  | withdrawn => exact h.mono (fun r hr => ⟨r, mem_of_mem_filter hr, rfl⟩) fun _ h => h
  | closed =>
    refine h.mono (fun r hr => ⟨r, hr, rfl⟩) fun id hid => ?_
    show ((db.connections.modify _ fun row => by split <;> rfl).find? id).isSome = _
    rw [Table.find?_modify, Option.isSome_map]
    exact hid

/-! ## Mutations -/

/-- What a replayed mutation leaves to the collector covers what it would have referred to. -/
def AdmitsReplay (db : Db κ) (m : Mutation κ) (hint : Hint κ) : Prop :=
  ∀ o, m.Announces o → db.isReferenced o = false → o ∈ hint.candidates

theorem hasObject_insertObjects (h : (db.insertObjects m).HasObject o) :
    db.HasObject o ∨ m.Announces o := by
  unfold insertObjects at h
  cases hm : m.upserted with
  | none =>
    rw [hm] at h
    exact .inl h
  | some route =>
    rw [hm] at h
    cases o with
    | identity _ =>
      rcases Table.isSome_find?_insert h with hold | rfl
      · exact .inl hold
      · exact .inr ⟨route, hm, .inl rfl⟩
    | payload _ =>
      rcases Table.isSome_find?_insert h with hold | hnew
      · exact .inl hold
      · exact .inr ⟨route, hm, .inr (.inl (congrArg SharedObject.payload hnew.symm))⟩
    | «attribute» id =>
      cases ha : route.attribute? with
      | none =>
        dsimp only [HasObject] at h
        rw [ha] at h
        exact .inl h
      | some attr =>
        dsimp only [HasObject] at h
        rw [ha] at h
        rcases Table.isSome_find?_insert h with hold | rfl
        · exact .inl hold
        · exact .inr ⟨route, hm, .inr (.inr ⟨attr.id, by unfold Route.attrPk; rw [ha]; rfl, rfl⟩)⟩

end Db

/-! ## Batches -/

/-- The caches know the objects of a mutation to come, so that a replay leaves to the collector
those that no current route refers to. -/
theorem Work.Ready.mem_rejectedObjects {w : Work κ} (hw : w.Ready (m :: rest))
    (partition : Option RoutePartition) (h : m.Announces o) (hnot : w.db.isReferenced o = false) :
    o ∈ w.rejectedObjects m partition := by
  obtain ⟨route, hroute, hcases⟩ := h
  obtain ⟨hident, hpay, hattr⟩ := hw.objects m mem_cons_self route hroute
  have hnone : ∀ r ∈ w.db.routes.rows, ¬ r.RefersTo o := by
    intro r hr ho
    rw [Db.isReferenced_iff.mpr ⟨r, hr, ho⟩] at hnot
    cases hnot
  have hpk : Option.guard (· ∈ w.cache.routeIdentities) route.identity.id =
      some route.identity.id := by simp [hident]
  have hjson : Option.guard (· ∈ w.cache.routePayloads) route.routeJson =
      some route.routeJson := by simp [hpay]
  unfold rejectedObjects
  rw [(Mutation.route_of_upserted hroute).2]
  dsimp only
  rw [hpk, hjson]
  generalize hfound : (do
    let p ← partition
    let scope ← m.scope
    let row ← w.db.scopes.find? scope.id
    let routePk ← some route.identity.id
    w.db.routes.find? ⟨p, row.id, routePk⟩) = existing
  have hexist : ∀ r, existing = some r →
      r ∈ w.db.routes.rows ∧ r.key.route = route.identity.id := by
    rintro r rfl
    simp only [Option.bind_eq_bind, Option.bind_eq_some_iff] at hfound
    obtain ⟨p, -, -, -, _, -, _, hid, hfind⟩ := hfound
    cases hid
    obtain ⟨hmem, hkey⟩ := Table.find?_eq_some_iff.mp hfind
    exact ⟨hmem, congrArg RouteKey.route hkey⟩
  rw [mem_gcCandidates]
  rcases hcases with rfl | rfl | ⟨_, hid, rfl⟩
  · refine .inl ⟨route.identity.id, if_neg fun hsome => ?_, rfl⟩
    obtain ⟨r, hr⟩ := Option.isSome_iff_exists.mp hsome
    exact hnone r (hexist r hr).1 (hexist r hr).2
  · refine .inr (.inl ⟨route.routeJson, if_neg fun hsame => ?_, rfl⟩)
    obtain ⟨r, hr, hsame⟩ := Option.map_eq_some_iff.mp hsame
    exact hnone r (hexist r hr).1 hsame
  · obtain ⟨attr, hattribute, rfl⟩ := Option.map_eq_some_iff.mp hid
    have hpk : route.attrId.filter (· ∈ w.cache.attributes) = some attr.id := by
      have hmem := hattr attr hattribute
      unfold Route.attribute? at hattribute
      split at hattribute
      · rename_i hattrId _
        cases hattribute
        rw [hattrId]
        exact Option.filter_some_pos (decide_eq_true hmem)
      · cases hattribute
    rw [hpk]
    refine .inr (.inr ⟨attr.id, if_neg fun hsame => ?_, rfl⟩)
    obtain ⟨r, hr, hsame⟩ := Option.bind_eq_some_iff.mp hsame
    exact hnone r (hexist r hr).1 hsame

theorem Work.isReferenced_settle (w : Work κ) (o : SharedObject κ) :
    w.settle.isReferenced o = w.db.isReferenced o := by
  unfold Db.isReferenced
  rw [Bool.eq_iff_iff]
  simp only [any_eq_true, decide_eq_true_eq]
  have hsame := fun r => refersTo_congr (w.db.refs_flushRow w.pending r)
    (w.db.key_flushRow w.pending r) o
  constructor
  · rintro ⟨r, hr, ho⟩
    obtain ⟨old, hold, rfl⟩ := mem_map.mp hr
    exact ⟨old, hold, (hsame old).mp ho⟩
  · rintro ⟨r, hr, ho⟩
    exact ⟨_, mem_map_of_mem hr, (hsame r).mpr ho⟩

theorem Work.Ready.admitsReplay {w : Work κ} (hw : w.Ready (m :: rest)) {db : Db κ}
    (hset : w.settle = db.fill (m :: rest)) (hp : m.partition = .ok partition) :
    db.AdmitsReplay m (w.hint m) := by
  intro o ho hnot
  have hdb : w.db.isReferenced o = false := by
    rw [← isReferenced_settle, hset, Db.fill_eq]
    exact hnot
  unfold hint
  rw [hp]
  refine (hw.probe m).mem_rejectedObjects partition ho ?_
  rw [w.db_probe]
  exact hdb

namespace Db

variable {db db' : Db κ} {m : Mutation κ} {includeDeltas : Bool}

/-! ## Sources -/

/-- Every connection belongs to its source, and so do the scopes of its current routes. -/
structure Sourced (sourceOf : κ → κ) (db : Db κ) : Prop where
  connections : ∀ row ∈ db.connections.rows, row.source = sourceOf row.id
  scopes : db.PlacedBy fun v _ connection => v.source = sourceOf connection

variable {sourceOf : κ → κ}

theorem validation_resolveScope {skip : Bool} (h : db.resolveScope m partition skip = .ok db')
    {scope : Scope κ} {p : RoutePartition} {row : ScopeRow κ} (hs : m.scope = some scope)
    (hp : partition = some p) (hrow : db'.scopes.find? scope.id = some row) :
    row.validation = scope.validation m.source.id p := by
  rcases resolveScope_ok h with ⟨-, hnone⟩ | ⟨_, _, hs', hp', hval, rfl, -⟩
  · rcases hnone with hnone | hnone
    · rw [hs] at hnone
      cases hnone
    · rw [hp] at hnone
      cases hnone
  · rw [hs] at hs'
    rw [hp] at hp'
    cases hs'
    cases hp'
    cases skip with
    | true => exact hval row hrow
    | false =>
      change (db.upsertScope (m.scopeParams scope p)).scopes.find? scope.id = some row at hrow
      cases hold : db.scopes.find? scope.id with
      | none =>
        have hfind := db.find?_upsertScope (m.scopeParams scope p)
        rw [show db.scopes.find? (m.scopeParams scope p).scope.id = none from hold] at hfind
        cases hrow.symm.trans hfind
        rfl
      | some old =>
        obtain ⟨_, hfind, hsame⟩ := validation_upsertScope hold
        cases hrow.symm.trans hfind
        exact hsame.trans (hval old hold)

namespace Sourced

variable (h : db.Sourced sourceOf)
include h

theorem congr (hrts : db'.routes = db.routes) (hscs : db'.scopes = db.scopes)
    (hconns : db'.connections = db.connections) : db'.Sourced sourceOf :=
  ⟨by rw [hconns]; exact h.connections, h.scopes.congr hrts hscs⟩

theorem resolve (hm : m.source.id = sourceOf m.connection.id) {skip : Bool}
    (hscope : (db.resolveContext m).resolveScope m partition skip = .ok db') :
    db'.Sourced sourceOf := by
  refine ⟨?_, h.scopes.resolve hscope⟩
  rw [(resolveScope_frame hscope).1]
  refine forall_connections_resolveContext h.connections ?_ fun _ _ hrow _ => hrow
  rw [id_connectionRow, ← hm]
  unfold connectionRow
  split <;> rfl

/-- The scope of an announced route has the source of the mutation, or the mutation failed. -/
theorem effect (hm : m.source.id = sourceOf m.connection.id) {db₀ : Db κ} {skip : Bool}
    (hp : m.partition = .ok partition) (hscope : db₀.resolveScope m partition skip = .ok db)
    (he : db.Effect m includeDeltas db') : db'.Sourced sourceOf := by
  refine ⟨fun row hrow => ?_, h.scopes.effect he fun scope p _ s hs hp' hrow _ => ?_⟩
  · obtain ⟨old, hold, hid, hsrc, -⟩ := exists_connection_effect he hrow
    rw [hid, hsrc]
    exact h.connections old hold
  · rw [hp] at hp'
    have hval := validation_resolveScope hscope hs (Except.ok.inj hp') hrow
    exact (congrArg ScopeValidation.source hval).trans hm

theorem deleteSource (hplc : db.Placed) (sourceId : κ) :
    (db.deleteSource sourceId).Sourced sourceOf :=
  ⟨fun row hrow => h.connections row (mem_of_mem_filter hrow),
    hplc.placedBy_deleteSource h.scopes sourceId⟩

end Sourced

/-- All shared rows are found by those who need them. -/
structure Tidy (sourceOf : κ → κ) (db : Db κ) : Prop where
  consistent : db.Consistent
  connected : db.Connected
  sourced : db.Sourced sourceOf
  collectable : db.Collectable

/-- The database after a number of collections. -/
def collections (db : Db κ) (limit n : ℕ) : Db κ := (fun db => collectGarbage db limit)^[n] db

namespace Tidy

variable (h : db.Tidy sourceOf)
include h

theorem congr (hsame : db.SameRoutes db')
    (hscs : db'.scopes = db.scopes) (hcounts : db'.counts = db.counts)
    (hconns : db'.connections = db.connections)
    (hcands : db'.gcCandidates = db.gcCandidates) : db'.Tidy sourceOf :=
  ⟨h.consistent.congr hsame hscs hcounts hconns, h.connected.congr hsame.routes hconns,
    h.sourced.congr hsame.routes hscs hconns, h.collectable.congr hsame hcands⟩

theorem insertObjects (m : Mutation κ) :
    (db.insertObjects m).Connected ∧ (db.insertObjects m).Sourced sourceOf ∧
      (db.insertObjects m).CollectableBut m := by
  have hconn := h.connected
  have hsrcd := h.sourced
  have hcoll := h.collectable
  refine ⟨?_, ?_, fun o ho hnot => ?_⟩
  · rw [insertObjects_eq]
    exact hconn.congr rfl rfl
  · rw [insertObjects_eq]
    exact hsrcd.congr rfl rfl rfl
  · rcases hasObject_insertObjects ho with hold | hnew
    · rw [insertObjects_eq] at hnot ⊢
      exact .inl (hcoll o hold hnot)
    · exact .inr hnew

theorem apply {hint : Hint κ} {x : Db κ × Bool × Option (Delta κ)}
    (hm : m.source.id = sourceOf m.connection.id) (hhint : db.AdmitsReplay m hint)
    (hx : db.apply m includeDeltas hint = .ok x) : x.1.Tidy sourceOf := by
  have hcons := h.consistent.apply hx
  have hins := h.consistent.insertObjects m
  obtain ⟨hconn, hsrcd, hbut⟩ := h.insertObjects m
  rcases applyFilled_ok hx with ⟨-, rfl⟩ | ⟨-, -, _, written, hp, hscope, heff⟩
  · refine ⟨hcons, hconn.congr rfl rfl, hsrcd.congr rfl rfl rfl, fun o ho hnot => ?_⟩
    have hhas : (db.insertObjects m).HasObject o := by cases o <;> exact ho
    have hrts : (db.insertObjects m).routes = db.routes := by rw [insertObjects_eq]; rfl
    have hnot' := (isReferenced_congr hrts o).symm.trans hnot
    exact mem_addGcCandidates.mpr
      ((hbut o hhas hnot).symm.imp_left fun hanns => hhint o hanns hnot')
  · have hctx := (db.insertObjects m).sameRoutes_resolveContext m
    have hsame := sameRoutes_resolveScope hscope
    obtain ⟨hconns, hcands⟩ := resolveScope_frame hscope
    have hwr := hins.resolve hscope
    have hreso : ((db.insertObjects m).resolveContext m).Connected :=
      hconn.mono (fun r hr => ⟨r, hctx.routes ▸ hr, rfl⟩) fun id hid =>
        isSome_resolveContext _ m (.inr hid)
    have hwcon := hreso.congr hsame.routes hconns
    have hrow : (written.connections.find? m.connection.id).isSome := by
      rw [hconns]
      exact isSome_resolveContext _ m (.inl rfl)
    have hwbut : written.CollectableBut m :=
      (hbut.congr hctx (resolveContext_frame _ m).2.2).congr hsame hcands
    exact ⟨hcons, hwcon.effect hrow heff, (hsrcd.resolve hm hscope).effect hm hp hscope heff,
      hwbut.effect hwr.refers hwr.placed hwcon heff⟩

theorem insertBatch (batch : Batch κ) : (db.insertBatch batch).Tidy sourceOf :=
  h.congr ⟨rfl, rfl, rfl, rfl⟩ rfl rfl rfl rfl

theorem applyBatch {batch : Batch κ} {x : Db κ × BatchResult κ}
    (hbatch : ∀ m ∈ batch.mutations, m.source.id = sourceOf m.connection.id)
    (hx : db.applyBatch batch = .ok x) : x.1.Tidy sourceOf := by
  refine applyBatch_induct (fun hm hready hset htidy hx => ?_) h.consistent.refers
    h.consistent.sequenced h (h.insertBatch batch) hx
  obtain ⟨_, hp, -⟩ := Control.bind_ok.mp hx
  exact htidy.apply (hbatch _ hm) (hready.admitsReplay hset hp) hx

/-! ## Purges and sweeps -/

theorem deleteRoutes (p : CurrentRoute κ → Bool)
    (hobjs : ∀ r ∈ db.routes.rows, p r = true → ∀ o, r.RefersTo o → o ∈ objects) :
    ((db.deleteRoutes p).addGcCandidates objects).Tidy sourceOf :=
  ⟨(h.consistent.deleteRoutes p).addGcCandidates objects,
    h.connected.mono (fun r hr => ⟨r, mem_of_mem_filter hr, rfl⟩) fun _ h => h,
    ⟨h.sourced.connections, h.sourced.scopes.deleteRoutes p⟩, h.collectable.deleteRoutes p hobjs⟩

theorem collectGarbage (limit : ℕ) : (db.collectGarbage limit).Tidy sourceOf :=
  ⟨h.consistent.collectGarbage limit, h.connected.congr rfl rfl, h.sourced.congr rfl rfl rfl,
    h.collectable.collectGarbage limit⟩

/-- The routes that are left belong to scopes of other sources, and so to connections of other
sources, which are left too. -/
theorem deleteSource (sourceId : κ) : (db.deleteSource sourceId).Tidy sourceOf := by
  have hdel : ((db.deleteRoutes (db.isRouteOf sourceId)).addGcCandidates ((db.routes.rows.filter
      (db.isRouteOf sourceId)).flatMap CurrentRoute.gcCandidates)).Tidy sourceOf :=
    h.deleteRoutes _ fun r hr hof o ho => mem_flatMap.mpr
      ⟨r, mem_filter.mpr ⟨hr, hof⟩, mem_gcCandidates_row.mpr ho⟩
  have hplc := h.consistent.placed
  refine ⟨h.consistent.deleteSource sourceId, fun r hr => ?_,
    h.sourced.deleteSource hplc sourceId, hdel.collectable.congr ⟨rfl, rfl, rfl, rfl⟩ rfl⟩
  have hmem : r ∈ db.routes.rows := mem_of_mem_filter hr
  obtain ⟨row, hrow⟩ := Option.isSome_iff_exists.mp (h.connected r hmem)
  obtain ⟨hrowMem, hid⟩ := Table.find?_eq_some_iff.mp hrow
  obtain ⟨s, hs, hsrc⟩ := h.sourced.scopes r hmem
  have hne : row.source ≠ sourceId := by
    intro he
    have hscope : s.source = sourceId := by
      rw [← he, h.sourced.connections row hrowMem]
      exact hsrc.trans (congrArg sourceOf hid.symm)
    have hleft := hplc.isScopeOf_of_left hr
    rw [isScopeOf_iff.mpr ⟨s, hs, hscope⟩] at hleft
    cases hleft
  show ((db.connections.filter _).find? r.connection).isSome
  rw [Table.find?_filter, hrow]
  simp [hne]

theorem purgeSource (sourceId : κ) : (db.purgeSource sourceId).Tidy sourceOf := by
  unfold Db.purgeSource
  split
  · exact h
  · exact ((h.deleteSource sourceId).collectGarbage maxSafeInteger).congr ⟨rfl, rfl, rfl, rfl⟩ rfl
      rfl rfl rfl

theorem modifyScopes (f : ScopeRow κ → ScopeRow κ) (hf : ∀ s, (f s).id = s.id)
    (hval : ∀ s, (f s).validation = s.validation) :
    Tidy sourceOf { db with scopes := db.scopes.modify f hf } :=
  ⟨h.consistent.modifyScopes f hf hval, h.connected.congr rfl rfl,
    ⟨h.sourced.connections, h.sourced.scopes.modifyScopes f hf hval⟩,
    h.collectable.congr ⟨rfl, rfl, rfl, rfl⟩ rfl⟩

/-! ## Whole runs -/

omit h in
theorem upkeep : Upkeep (Tidy sourceOf : Db κ → Prop) where
  deleteRoutes p _ hobjs h := h.deleteRoutes p hobjs
  collectGarbage limit h := h.collectGarbage limit
  modifyScopes f hf hval h := h.modifyScopes f hf hval
  sweepAuxiliary _ _ h := h.congr ⟨rfl, rfl, rfl, rfl⟩ rfl rfl rfl rfl

theorem run (le : κ → κ → Bool) {calls : List (Call κ)}
    (hkeep : ∀ call ∈ calls, call.KeepsSources sourceOf) :
    (db.run le calls).Tidy sourceOf := by
  induction calls generalizing db with
  | nil => exact h
  | cons call _ ih =>
    refine ih (Tidy.upkeep.call h le (fun hcall hx => h.applyBatch ?_ hx) fun sourceId _ =>
      h.purgeSource sourceId) fun c hc => hkeep c (mem_cons_of_mem _ hc)
    exact fun m hm => hkeep call mem_cons_self _ hcall m hm

/-! ## Collecting until nothing is left -/

theorem collections (limit n : ℕ) : (db.collections limit n).Tidy sourceOf := by
  induction n generalizing db with
  | zero => exact h
  | succ n ih => exact ih (h.collectGarbage limit)

theorem hasObject_iff (hmore : db.hasGcCandidates = false) (o : SharedObject κ) :
    db.HasObject o ↔ db.isReferenced o = true := by
  constructor
  · intro ho
    by_contra hnot
    rw [Bool.not_eq_true] at hnot
    have hmem := h.collectable o ho hnot
    unfold hasGcCandidates at hmore
    rw [Bool.not_eq_false', List.isEmpty_iff] at hmore
    rw [hmore] at hmem
    cases hmem
  · intro ho
    obtain ⟨r, hr, href⟩ := isReferenced_iff.mp ho
    exact h.consistent.refers r hr o href

end Tidy

theorem tidy_empty (sourceOf : κ → κ) : (Db.empty : Db κ).Tidy sourceOf where
  consistent := consistent_empty
  connected := forall_mem_nil _
  sourced := ⟨forall_mem_nil _, forall_mem_nil _⟩
  collectable o ho := by cases o <;> exact Bool.noConfusion ho

theorem routes_collections (db : Db κ) (limit n : ℕ) :
    (db.collections limit n).routes = db.routes := by
  induction n generalizing db with
  | zero => rfl
  | succ n ih => exact ih _

theorem length_gcCandidates_lt {limit : ℕ} (hlimit : 0 < limit) (h : db.hasGcCandidates = true) :
    (db.collectGarbage limit).gcCandidates.rows.length < db.gcCandidates.rows.length := by
  have hsorted := perm_insertionSort (fun a b => (db.gcRank a).1 < (db.gcRank b).1 ∨
    (db.gcRank a).1 = (db.gcRank b).1 ∧ (db.gcRank a).2 ≤ (db.gcRank b).2) db.gcCandidates.rows
  have hwork : db.gcWork limit ≠ [] := by
    intro hnil
    rcases take_eq_nil_iff.mp hnil with _ | hempty
    · omega
    · rw [hempty] at hsorted
      unfold hasGcCandidates at h
      rw [← hsorted.nil_eq] at h
      cases h
  obtain ⟨o, ho⟩ := exists_mem_of_ne_nil _ hwork
  have hmem : o ∈ db.gcCandidates.rows := hsorted.mem_iff.mp (mem_of_mem_take ho)
  refine length_filter_lt_length_iff_exists.mpr ⟨o, hmem, ?_⟩
  simp [ho]

theorem exists_collections (db : Db κ) {limit : ℕ} (hlimit : 0 < limit) :
    ∃ n, (db.collections limit n).hasGcCandidates = false := by
  induction hn : db.gcCandidates.rows.length using Nat.strong_induction_on generalizing db with
  | _ _ ih =>
    cases hmore : db.hasGcCandidates with
    | false => exact ⟨0, hmore⟩
    | true =>
      obtain ⟨n, hn⟩ := ih _ (hn ▸ length_gcCandidates_lt hlimit hmore) _ rfl
      exact ⟨n + 1, hn⟩

/-- In every run no shared row is missing that a current route refers to. If every connection keeps
to one source, the others are candidates, and repeated collections leave just those referred to. -/
theorem garbage_collected (le : κ → κ → Bool) (calls : List (Call κ)) :
    (∀ o, (Db.empty.run le calls).isReferenced o = true → (Db.empty.run le calls).HasObject o) ∧
      ((∃ sourceOf, ∀ call ∈ calls, call.KeepsSources sourceOf) →
        (∀ o, (Db.empty.run le calls).HasObject o →
          (Db.empty.run le calls).isReferenced o = false →
            o ∈ (Db.empty.run le calls).gcCandidates.rows) ∧
        ∀ limit, 0 < limit →
          (∃ n, ((Db.empty.run le calls).collections limit n).hasGcCandidates = false) ∧
          ∀ n, ((Db.empty.run le calls).collections limit n).hasGcCandidates = false →
            ∀ o, ((Db.empty.run le calls).collections limit n).HasObject o ↔
              (Db.empty.run le calls).isReferenced o = true) := by
  refine ⟨fun o ho => ?_, fun ⟨sourceOf, hkeep⟩ => ?_⟩
  · obtain ⟨r, hr, href⟩ := isReferenced_iff.mp ho
    exact (consistent_empty.run le calls).refers r hr o href
  · have htidy := (tidy_empty sourceOf).run le hkeep
    refine ⟨htidy.collectable, fun limit hlimit =>
      ⟨exists_collections _ hlimit, fun n hmore o => ?_⟩⟩
    rw [(htidy.collections limit n).hasObject_iff hmore]
    unfold isReferenced
    rw [routes_collections]

/-- A route is announced with two payloads, and a source is purged that has no part in it. -/
def sampleReplace : List (Call ℕ) :=
  [.applyBatch (sampleBatch 1 [sampleMutation .announce 1 1 1 (some (sampleScope 1 1 .ready))
      (some (sampleRoute 7 20)), sampleMutation .statistics 2 2 1 none none] false),
    .applyBatch (sampleBatch 2 [sampleMutation .announce 1 1 2 (some (sampleScope 1 1 .ready))
      (some (sampleRoute 7 21))] false),
    .purgeSource 2]

theorem garbage_collected_replace :
    (∀ call ∈ sampleReplace, call.KeepsSources id) ∧
      ∃ n, ∀ o, ((Db.empty.run (fun a b => a ≤ b) sampleReplace).collections 1 n).HasObject o ↔
        (Db.empty.run (fun a b => a ≤ b) sampleReplace).isReferenced o = true := by
  have hkeep : ∀ call ∈ sampleReplace, call.KeepsSources id := by
    simp [sampleReplace, Call.KeepsSources, sampleBatch, sampleMutation]
  obtain ⟨⟨n, hn⟩, hleft⟩ := ((garbage_collected _ sampleReplace).2 ⟨id, hkeep⟩).2 1 one_pos
  exact ⟨hkeep, n, hleft n hn⟩

end Db

end Bmp.Store
