import NetNexus.Bmp.Proofs.StoreContextProofs

/-!
# A batch does what its mutations do

The rows that a batch has read ahead are those of the database, so that a batch does to the database
what its mutations do to it one by one.
-/

namespace Bmp.Store

open Control List Store.CurrentRoute Store.Db Store.Mutation

variable {κ : Type}

/-! ## What is read ahead and put off -/

def Mutation.IsAbout (m : Mutation κ) (key : RouteKey κ) : Prop := m.routeKey = .ok (some key)

theorem Work.pending_eq {w : Work κ} {rows : List (RouteParams κ)}
    (h : w.cache.deferredMetadataRefresh = some rows) : w.pending = rows := by
  unfold Work.pending
  rw [h]
  rfl

theorem Work.pending_eq_nil {w : Work κ} (h : w.cache.deferredMetadataRefresh.isSome = false) :
    w.pending = [] := by
  unfold Work.pending
  rw [Option.isSome_eq_false_iff, Option.isNone_iff_eq_none] at h
  rw [h]
  rfl

variable {m : Mutation κ} {route : Route κ} {key : RouteKey κ} {includeDeltas : Bool}

theorem Mutation.isAbout_iff {scope : Scope κ} {partition : RoutePartition}
    (hp : m.partition = .ok (some partition)) (hscope : m.scope = some scope)
    (hroute : m.route = some route) :
    m.IsAbout key ↔ key = (m.routeParams scope partition route).key := by
  have hkey : m.routeKey = .ok (some (m.routeParams scope partition route).key) := by
    unfold routeKey
    rw [hp, hscope, hroute]
    rfl
  unfold Mutation.IsAbout
  rw [hkey]
  constructor
  · intro h
    cases h
    rfl
  · rintro rfl
    rfl

theorem Mutation.route_of_upserted (h : m.upserted = some route) :
    m.eventType.isRouteUpsert = true ∧ m.route = some route := by
  unfold upserted at h
  split at h
  · exact ⟨‹_›, h⟩
  · cases h

theorem Mutation.upserted_eq_none (h : m.eventType.action ≠ .announce) : m.upserted = none := by
  unfold upserted EventType.isRouteUpsert
  rw [decide_eq_false h]
  rfl

theorem Mutation.upserted_eq (h : m.eventType.action = .announce) : m.upserted = m.route := by
  unfold upserted EventType.isRouteUpsert
  rw [decide_eq_true h]
  rfl

variable [DecidableEq κ]

theorem Db.generationOf_upsertConnection (db : Db κ) {connection : Connection κ}
    (source : κ) (eventAtMs : ℤ) (h : (db.connections.find? connection.id).isSome) (id : κ) :
    (db.upsertConnection connection source eventAtMs).generationOf id = db.generationOf id ∧
      (db.upsertConnection connection source eventAtMs).isOpen id = db.isOpen id := by
  unfold generationOf isOpen
  rw [db.find?_upsertConnection]
  by_cases hid : connection.id = id
  · subst hid
    obtain ⟨_, hrow⟩ := Option.isSome_iff_exists.mp h
    unfold connectionRow
    rw [if_pos rfl, hrow]
    exact ⟨rfl, rfl⟩
  · rw [if_neg hid]
    exact ⟨rfl, rfl⟩

/-- The connection does not own the scope, or the row that is there is a later one of it. -/
def Db.Rejects (db : Db κ) (p : RouteParams κ) : Prop :=
  db.owns p = false ∨ ∃ old, db.routes.find? p.key = some old ∧ old.connection = p.connection ∧
      (p.epoch < old.ribEpoch ∨ p.sequence < old.lastSequence)

/-- A row is written for the owner of its scope and passes the trigger, or nothing is written. -/
theorem Db.upsertRoute_ok {db : Db κ} {p : RouteParams κ} {x : Db κ × Bool}
    (h : db.upsertRoute p = .ok x) :
    x = (db, false) ∧ db.Rejects p ∨ x = (db.writeRoute p.row, true) ∧
      db.owns p = true ∧ db.validateInsert p.key = true := by
  unfold upsertRoute at h
  split at h
  · rename_i howns
    exact .inl ⟨(Except.ok.inj h).symm, .inl (by simpa [owns] using howns)⟩
  · rename_i howns
    obtain ⟨hvalid, h⟩ := ite_error_eq_ok.mp h
    have hboth : db.owns p = true ∧ db.validateInsert p.key = true := by
      simpa [owns] using And.intro howns hvalid
    cases hold : db.routes.find? p.key with
    | none =>
      rw [hold] at h
      exact .inr ⟨(Except.ok.inj h).symm, hboth⟩
    | some old =>
      simp only [hold] at h
      split at h
      · exact .inr ⟨(Except.ok.inj h).symm, hboth⟩
      · rename_i hlater
        refine .inl ⟨(Except.ok.inj h).symm, .inr ⟨old, hold, ?_⟩⟩
        simp only [not_or, not_and_or, not_le, not_not] at hlater
        exact hlater

theorem Db.announceRoute_ok {db : Db κ} {scope : Scope κ} {p : RoutePartition}
    {previous : Option (RouteRefs κ)} {x : Db κ × Bool × Option (Delta κ)}
    (h : db.announceRoute m scope p route previous includeDeltas = .ok x) :
    ∃ written, db.upsertRoute (m.routeParams scope p route) = .ok (written, x.2.1) ∧
      x.1 = written.addGcCandidates ((m.routeParams scope p route).announcedCandidates
        (db.previousRow (m.routeParams scope p route).key previous includeDeltas).1 x.2.1) := by
  obtain ⟨⟨written, _⟩, hups, h⟩ := bind_ok.mp h
  cases h
  exact ⟨written, hups, rfl⟩

/-- A withdrawal deletes the route for the owner of its scope, or nothing. -/
theorem Db.withdraw_cases (db : Db κ) (m : Mutation κ) (scope : Scope κ) (p : RoutePartition)
    (routePk : Option κ) (includeDeltas : Bool) :
    (db.withdraw m scope p routePk includeDeltas).1 = db ∧
        (∀ route, routePk = some route →
          db.ownsScope p scope.id m.connection.id scope.epoch = false) ∨
      ∃ route, routePk = some route ∧ db.ownsScope p scope.id m.connection.id scope.epoch = true ∧
        (db.withdraw m scope p routePk includeDeltas).1 =
          (db.deleteRoute ⟨p, scope.id, route⟩).addGcCandidates
            ((db.routes.find? ⟨p, scope.id, route⟩).toList.flatMap CurrentRoute.gcCandidates) := by
  cases routePk with
  | none => exact .inl ⟨rfl, nofun⟩
  | some route =>
    unfold withdraw withdrawRoute
    dsimp only [Option.map_some]
    cases howns : db.ownsScope p scope.id m.connection.id scope.epoch with
    | false => exact .inl ⟨rfl, fun _ _ => rfl⟩
    | true => exact .inr ⟨route, rfl, rfl, rfl⟩

namespace Work

/-- The keys that come again are among those that are remembered. -/
def Repeats (keys : List (RouteKey κ)) : List (Mutation κ) → Prop
  | [] => True
  | m :: ms =>
    (∀ key, m.IsAbout key → (∃ m' ∈ ms, m'.IsAbout key) → key ∈ keys) ∧ Repeats keys ms

/-- The rows that were read ahead are those of the database for the mutations to come. -/
structure Reads (w : Work κ) (rest : List (Mutation κ)) : Prop where
  announces : ∀ m ∈ rest, ∃ scope route, m.scope = some scope ∧ m.upserted = some route
  exact : ∀ refs, w.cache.currentRouteRefs = some refs → ∀ m ∈ rest, ∀ key, m.IsAbout key →
    refs key = some ((w.db.routes.find? key).map CurrentRoute.refs)
  repeats : Repeats w.cache.currentRouteRepeatKeys rest

/-- Refreshes are put off for distinct routes of one scope, whose owner is settled once the batch
has written it. -/
structure Defers (w : Work κ) (rest : List (Mutation κ)) (p : RoutePartition)
    (scopeId connection : κ) (epoch : ℤ) : Prop where
  context : ∀ m ∈ rest, m.connection.id = connection ∧
    ∃ scope, m.scope = some scope ∧ scope.id = scopeId ∧ scope.epoch = epoch
  placed : ∀ m ∈ rest, m.partition = .ok (some p)
  rows : ∀ r ∈ w.pending, r.key.partition = p ∧ r.key.scope = scopeId ∧
    r.connection = connection ∧ r.epoch = epoch
  apart : ∀ r ∈ w.pending, ∀ m ∈ rest, ¬ m.IsAbout r.key
  distinct : rest.Pairwise fun m m' => ∀ key, m.IsAbout key → ¬ m'.IsAbout key
  written : w.pending ≠ [] → (w.cache.scopes scopeId).isSome
  settled : (w.cache.scopes scopeId).isSome → w.db.ScopeSettled scopeId connection epoch ∧
    (w.db.connections.find? connection).isSome

/-- A batch with mutations to come. -/
structure Ready (w : Work κ) (rest : List (Mutation κ)) : Prop where
  context : w.Context
  objects : ∀ m ∈ rest, ∀ route, m.upserted = some route →
    route.identity.id ∈ w.cache.routeIdentities ∧ route.routeJson ∈ w.cache.routePayloads ∧
      ∀ attr, route.attribute? = some attr → attr.id ∈ w.cache.attributes
  reads : w.cache.currentRouteRefs.isSome → w.Reads rest
  defers : w.cache.deferredMetadataRefresh.isSome → w.cache.currentRouteRefs.isSome ∧
    ∃ partition scopeId connection epoch, w.Defers rest partition scopeId connection epoch

variable {w : Work κ} {m : Mutation κ} {rest : List (Mutation κ)} {route : Route κ}
  {scope : Scope κ} {p : RoutePartition} {partition : Option RoutePartition}
  {params : RouteParams κ} {x : Work κ × Option (Delta κ)}

/-! ## Settling -/

/-- A refresh that is put off is one that is made in the settled database. -/
theorem settle_refresh (w : Work κ) (params : RouteParams κ) :
    (w.refresh params).settle = w.settle.refreshRouteMetadata params := by
  unfold refresh
  cases hd : w.cache.deferredMetadataRefresh with
  | none =>
    have hnil : w.pending = [] := pending_eq_nil (by rw [hd]; rfl)
    show (w.db.refreshRouteMetadata params).settled w.pending w.cache = _
    unfold settle
    rw [hnil, settled_nil, settled_nil]
    rfl
  | some rows =>
    have hrows := pending_eq hd
    unfold settle
    rw [hrows]
    show { w.db.settled rows w.cache with
      routes := w.db.routes.modify _
        (w.db.key_flushRow (rows ++ [params])) } = _
    have hrts : w.db.routes.modify (w.db.flushRow (rows ++ [params]))
        (w.db.key_flushRow (rows ++ [params])) =
          (w.db.routes.modify (w.db.flushRow rows) (w.db.key_flushRow rows)).modify
            (w.db.refreshRow params) (w.db.key_refreshRow params) := by
      refine Table.eq_of_rows ?_
      show _ = List.map _ (List.map ..)
      rw [map_map]
      exact map_congr_left fun r _ => w.db.flushRow_append rows r params
    rw [hrts]
    rfl

/-- Only the rows that were read ahead change. -/
theorem rememberRefs_eq (w : Work κ) (params : RouteParams κ) :
    ∃ refs, w.rememberRefs params = { w with cache := { w.cache with currentRouteRefs := refs } } ∧
      refs.isSome = w.cache.currentRouteRefs.isSome := by
  unfold rememberRefs
  split
  · exact ⟨_, rfl, Option.isSome_map⟩
  · exact ⟨_, rfl, rfl⟩

theorem settle_rememberRefs (w : Work κ) (params : RouteParams κ) :
    (w.rememberRefs params).settle = w.settle := by
  obtain ⟨_, hform, -⟩ := w.rememberRefs_eq params
  rw [hform]
  rfl

theorem db_findIdentity (w : Work κ) (routeId : κ) : (w.findIdentity routeId).1.db = w.db := by
  unfold findIdentity
  split
  · rfl
  · split <;> rfl

theorem settle_findIdentity (w : Work κ) (routeId : κ) (db : Db κ) :
    settle { (w.findIdentity routeId).1 with db := db } = settle { w with db := db } := by
  unfold findIdentity
  split
  · rfl
  · split <;> rfl

theorem findIdentity_fst (w : Work κ) (routeId : κ) : ∃ known, (w.findIdentity routeId).1 = { w with
    cache := { w.cache with routeIdentities := known } } ∧ w.cache.routeIdentities ⊆ known := by
  unfold Work.findIdentity
  split
  · exact ⟨_, rfl, fun _ h => h⟩
  · split
    · exact ⟨_, rfl, fun _ h => mem_cons_of_mem routeId h⟩
    · exact ⟨_, rfl, fun _ h => h⟩

variable (db : Db κ) (cache : Cache κ)

theorem withdrawRoute_settled (key : RouteKey κ) (connection : κ)
    (epoch : ℤ) : (db.settled [] cache).withdrawRoute key connection epoch =
      ((db.withdrawRoute key connection epoch).1.settled [] cache,
        (db.withdrawRoute key connection epoch).2) := by
  have howns : (db.settled [] cache).ownsScope key.partition key.scope connection epoch =
      db.ownsScope key.partition key.scope connection epoch := rfl
  unfold withdrawRoute
  rw [howns]
  split
  · rw [settled_nil, settled_nil]
    rfl
  · rfl

theorem withdraw_settled (m : Mutation κ) (scope : Scope κ)
    (p : RoutePartition) (routePk : Option κ) (includeDeltas : Bool) :
    (db.settled [] cache).withdraw m scope p routePk includeDeltas =
      ((db.withdraw m scope p routePk includeDeltas).1.settled [] cache,
        (db.withdraw m scope p routePk includeDeltas).2) := by
  have hfind : (db.settled [] cache).findCurrentRoute = db.findCurrentRoute :=
    funext fun key => db.findCurrentRoute_settled [] cache key
  unfold withdraw
  rw [hfind]
  cases routePk with
  | none => rfl
  | some _ =>
    dsimp only [Option.map_some]
    rw [withdrawRoute_settled]
    rfl

theorem close_settled (m : Mutation κ) :
    (db.settled [] cache).close m = (db.close m).settled [] cache := by
  unfold close closeConnectionScopes
  dsimp only
  congr 1
  refine Table.eq_of_rows ?_
  show List.map _ (List.map ..) = List.map _ (List.map ..)
  rw [map_map, map_map, Cache.advance_comp]
  all_goals
    intros
    split <;> rfl

theorem settle_of_pending_nil (h : w.pending = []) (db : Db κ) :
    settle { w with db := db } = db.settled [] w.cache := by
  show db.settled w.pending w.cache = _
  rw [h]

/-- With nothing put off, what commutes with writing the sequence numbers is done to the settled
database. -/
theorem apply_settle (h : w.pending = []) (f : Db κ → Db κ)
    (hf : f (w.db.settled [] w.cache) = (f w.db).settled [] w.cache) :
    (.ok (f w.settle, none) : Except (Failure κ) (Db κ × Option (Delta κ))) =
      .ok (settle { w with db := f w.db }, none) := by
  rw [settle_of_pending_nil h, settle_of_pending_nil h, hf]

theorem scopes_scopeResolved (w : Work κ) (m : Mutation κ) (scope : Scope κ) (p : RoutePartition) :
    (w.scopeResolved m scope p).cache.scopes scope.id = some (m.scopeParams scope p).signature :=
  Function.update_self ..

/-! ## The context stays -/

namespace Context

variable (hw : w.Context)
include hw

theorem modifyScopes (f : ScopeRow κ → ScopeRow κ) (hf : ∀ scope, (f scope).id = scope.id)
    (hval : ∀ scope, (f scope).validation = scope.validation) :
    Context { w with db := { w.db with scopes := w.db.scopes.modify f hf } } := by
  refine { hw with validated := fun key hkey => ?_ }
  obtain ⟨row, hrow, hrowval⟩ := hw.validated key hkey
  refine ⟨f row, ?_, (hval row).trans hrowval⟩
  rw [Table.find?_modify, hrow]
  rfl

/-- The rows of connections change only in columns that no cache is about. -/
theorem modifyConnections (f : ConnectionRow κ → ConnectionRow κ)
    (hf : ∀ row, (f row).id = row.id) (hlast : ∀ row, (f row).lastSequence = row.lastSequence)
    (hmerge : ∀ row (connection : Connection κ) source, row.merge connection source = row →
      (f row).merge connection source = f row) :
    Context { w with db := { w.db with connections := w.db.connections.modify f hf } } := by
  have hfind : ∀ id, (w.db.connections.modify f hf).find? id =
      (w.db.connections.find? id).map f := fun id => Table.find?_modify _ f hf id
  refine { hw with connections := ?_, dirty := ?_, clean := ?_, sequenced := ?_ }
  · intro connection source hcache
    obtain ⟨row, hrow, hsame⟩ := hw.connections connection source hcache
    exact ⟨f row, by rw [hfind, hrow]; rfl, hmerge row connection source hsame⟩
  · intro id state hstate hdirty
    obtain ⟨row, hrow, hle⟩ := hw.dirty id state hstate hdirty
    exact ⟨f row, by rw [hfind, hrow]; rfl, (hlast row).trans_le hle⟩
  · intro id state hstate hclean
    rw [hw.clean id state hstate hclean]
    unfold lastSequenceOf
    rw [hfind]
    cases w.db.connections.find? id with
    | none => rfl
    | some row => exact (hlast row).symm
  · intro row hmem
    obtain ⟨old, hold, rfl⟩ := mem_map.mp hmem
    rw [hlast]
    exact hw.sequenced old hold

theorem close (m : Mutation κ) : Context { w with db := w.db.close m } := by
  have hcl := hw.modifyConnections
    (fun row =>
      if row.id = m.connection.id then
        { row with
          isOpen := false
          closedAtMs := some m.eventAtMs
          closeReason := some _ }
      else row)
    (fun row => by split <;> rfl) (fun row => by split <;> rfl) fun row connection source h => by
      split
      · exact congrArg (fun row =>
          { row with
            isOpen := false
            closedAtMs := some m.eventAtMs
            closeReason := some (m.reason.getD .connectionClose) }) h
      · exact h
  exact hcl.modifyScopes _ (fun scope => by split <;> rfl) fun scope => by split <;> rfl

theorem findIdentity (routeId : κ) : (w.findIdentity routeId).1.Context := by
  unfold Work.findIdentity
  split
  · exact hw
  · split
    · rename_i hsome
      refine { hw with known := ?_ }
      intro id hid
      rcases mem_cons.mp hid with rfl | hold
      · exact Option.isSome_iff_exists.mp hsome
      · exact hw.known id hold
    · exact hw

theorem withdraw (m : Mutation κ) (scope : Scope κ) (p : RoutePartition)
    (routePk : Option κ) (includeDeltas : Bool) :
    Context { w with db := (w.db.withdraw m scope p routePk includeDeltas).1 } := by
  rcases w.db.withdraw_cases m scope p routePk includeDeltas with ⟨hdb, -⟩ | ⟨_, -, -, hdb⟩
  · rw [hdb]
    exact hw
  · rw [hdb]
    exact hw.congr rfl

end Context

/-- The rows that the mutations to come will read, once a row was written. -/
theorem Reads.writeRoute (hreads : w.Reads (m :: rest)) (hkey : m.IsAbout params.key)
    (objects : List (SharedObject κ)) :
    (rememberRefs { w with db := (w.db.writeRoute params.row).addGcCandidates objects }
      params).Reads rest := by
  have hfind : ∀ key, (w.db.routes.upsert params.row).find? key =
      if params.key = key then some params.row else w.db.routes.find? key :=
    fun key => w.db.routes.find?_upsert params.row key
  have hanns := fun m' h => hreads.announces m' (mem_cons_of_mem m h)
  unfold rememberRefs
  split
  · refine ⟨hanns, fun refs' hrefs' m' hm' key hkey' => ?_, hreads.repeats.2⟩
    obtain ⟨refs, hrefs, rfl⟩ := Option.map_eq_some_iff.mp hrefs'
    show Function.update refs params.key _ key =
      some (((w.db.routes.upsert params.row).find? key).map CurrentRoute.refs)
    rw [hfind]
    by_cases hsame : params.key = key
    · subst hsame
      rw [if_pos rfl, Function.update_self]
      rfl
    · rw [if_neg hsame, Function.update_of_ne fun he => hsame he.symm]
      exact hreads.exact refs hrefs m' (mem_cons_of_mem m hm') key hkey'
  · rename_i hnot
    refine ⟨hanns, fun refs hrefs m' hm' key hkey' => ?_, hreads.repeats.2⟩
    show _ = some (((w.db.routes.upsert params.row).find? key).map CurrentRoute.refs)
    have hne : params.key ≠ key := by
      rintro rfl
      exact hnot (hreads.repeats.1 _ hkey ⟨m', hm', hkey'⟩)
    rw [hfind, if_neg hne]
    exact hreads.exact refs hrefs m' (mem_cons_of_mem m hm') key hkey'

namespace Ready

section

variable (hw : w.Ready rest)
include hw

/-- A batch stays ready if the rows that it has read ahead and the owner of the scope stay. -/
theorem congr {db : Db κ} {sources : κ → Option (SourceSignature κ)}
    {connections : κ → Option (CachedConnection κ)}
    (hctx : Context ⟨db, { w.cache with sources, connections }⟩)
    (hrts : ∀ key, (db.routes.find? key).map refs =
      (w.db.routes.find? key).map refs)
    (hsett : ∀ scopeId connection epoch, (∀ m ∈ rest, m.connection.id = connection) →
      w.db.ScopeSettled scopeId connection epoch ∧ (w.db.connections.find? connection).isSome →
      db.ScopeSettled scopeId connection epoch ∧ (db.connections.find? connection).isSome) :
    Ready ⟨db, { w.cache with sources, connections }⟩ rest := by
  refine ⟨hctx, hw.objects, fun hsome => ?_, fun hsome => ?_⟩
  · have hreads := hw.reads hsome
    refine ⟨hreads.announces, fun refs h m hm key hkey => ?_, hreads.repeats⟩
    rw [hrts]
    exact hreads.exact refs h m hm key hkey
  · obtain ⟨href, p, scopeId, connection, epoch, hd⟩ := hw.defers hsome
    exact ⟨href, p, scopeId, connection, epoch, { hd with
      settled := fun hwr => hsett scopeId connection epoch
        (fun m hm => (hd.context m hm).1) (hd.settled hwr) }⟩

theorem addGcCandidates (objects : List (SharedObject κ)) :
    Ready { w with db := w.db.addGcCandidates objects } rest :=
  hw.congr (hw.context.congr rfl) (fun _ => rfl) fun _ _ _ _ h => h

theorem probe (m : Mutation κ) : (w.probe m).Ready rest := by
  have hctx := hw.context.probe m
  obtain ⟨_, hprobe, -⟩ := w.probe_eq m
  rw [hprobe] at hctx ⊢
  exact hw.congr hctx (fun _ => rfl) fun _ _ _ _ h => h

theorem findIdentity_snd (routeId : κ) :
    (w.findIdentity routeId).2 = (w.db.identities.find? routeId).map Identity.id := by
  unfold findIdentity
  split
  · rename_i hmem
    obtain ⟨_, hfind⟩ := hw.context.known routeId hmem
    rw [hfind]
    exact congrArg some (Table.key_of_find? hfind).symm
  · cases hfind : w.db.identities.find? routeId with
    | none => rfl
    | some _ => exact congrArg some (Table.key_of_find? hfind).symm

end

variable (hw : w.Ready (m :: rest))
include hw

/-! ## What a mutation does -/

/-- Nothing is read ahead in a batch with a mutation that does not announce. -/
theorem refs_eq_none (hm : m.upserted = none) : w.cache.currentRouteRefs.isSome = false := by
  refine Bool.eq_false_iff.mpr fun hrefs => ?_
  obtain ⟨-, _, -, hroute⟩ := (hw.reads hrefs).announces m (mem_cons_self ..)
  rw [hm] at hroute
  cases hroute

theorem deferred_eq_false (hm : m.upserted = none) :
    w.cache.deferredMetadataRefresh.isSome = false := by
  refine Bool.eq_false_iff.mpr fun hd => ?_
  cases (hw.refs_eq_none hm).symm.trans (hw.defers hd).1

/-- The row that a mutation finds is the one of the database. -/
theorem previousRefs_eq (hkey : m.IsAbout key) :
    w.previousRefs key = (w.settle.routes.find? key).map refs := by
  have hsett : (w.settle.routes.find? key).map refs =
      (w.db.routes.find? key).map refs := by
    rw [show w.settle.routes.find? key = _ from
      w.db.find?_settled_routes w.pending w.cache key, Option.map_map]
    congr 1
    funext r
    exact w.db.refs_flushRow w.pending r
  rw [hsett]
  unfold previousRefs
  cases hc : w.cache.currentRouteRefs with
  | none => rfl
  | some refs =>
    have hreads := hw.reads (by rw [hc]; rfl)
    rw [Option.bind_some, hreads.exact refs hc m (mem_cons_self ..) key hkey]

/-- An announced route shares rows that the batch has inserted. -/
theorem resolveObjects_eq (hroute : m.upserted = some route) : w.resolveObjects route = w := by
  obtain ⟨hid, hjson, hattr⟩ := hw.objects m (mem_cons_self ..) route hroute
  have h1 : w.resolveAttrPk route = w := by
    unfold resolveAttrPk
    cases ha : route.attribute? with
    | none => rfl
    | some attr => exact if_pos (hattr attr ha)
  have h2 : w.resolveIdentity route.identity = w := if_pos hid
  have h3 : w.resolvePayload route.routeJson = w := if_pos hjson
  unfold resolveObjects
  rw [h1, h2, h3]

/-- No refresh of the route of a mutation is put off before the mutation. -/
theorem key_ne (hkey : m.IsAbout key) : ∀ r ∈ w.pending, key ≠ r.key := by
  intro r hr he
  cases hd : w.cache.deferredMetadataRefresh.isSome with
  | false =>
    rw [pending_eq_nil hd] at hr
    cases hr
  | true =>
    obtain ⟨-, p, _, _, _, hdef⟩ := hw.defers hd
    exact hdef.apart r hr m (mem_cons_self ..) (he ▸ hkey)

theorem announce_settle (hp : m.partition = .ok (some p))
    (hscope : m.scope = some scope) (hroute : m.upserted = some route) (includeDeltas : Bool) :
    w.settle.announce m scope p route includeDeltas =
      (w.announce m scope p route includeDeltas).map fun x => (x.1.settle, x.2) := by
  have hkey : m.IsAbout (m.routeParams scope p route).key :=
    (isAbout_iff hp hscope (route_of_upserted hroute).2).mpr rfl
  unfold Db.announce announce
  dsimp only
  rw [hw.previousRefs_eq hkey]
  split
  · show _ = Except.ok ((w.refresh _).settle, none)
    rw [settle_refresh]
    rfl
  · have hroute := w.db.announceRoute_settled w.pending w.cache m scope p route
      ((w.settle.routes.find? (m.routeParams scope p route).key).map refs)
      includeDeltas (hw.key_ne hkey)
    rw [show w.settle.announceRoute m scope p route _ includeDeltas = _ from hroute]
    cases w.db.announceRoute m scope p route
      ((w.settle.routes.find? (m.routeParams scope p route).key).map refs)
      includeDeltas with
    | error e => rfl
    | ok x =>
      obtain ⟨-, changed, delta⟩ := x
      cases changed with
      | false => rfl
      | true =>
        show _ = Except.ok
          ((rememberRefs _ _).settle, delta)
        rw [settle_rememberRefs]
        rfl

theorem withdrawEvent_settle (hnil : w.pending = [])
    (scope : Scope κ) (p : RoutePartition) (routeId : κ) (includeDeltas : Bool) :
    w.settle.withdraw m scope p ((w.db.identities.find? routeId).map Identity.id) includeDeltas =
      ((settle { (w.findIdentity routeId).1 with
          db := ((w.findIdentity routeId).1.db.withdraw m scope p (w.findIdentity routeId).2
            includeDeltas).1 }),
        ((w.findIdentity routeId).1.db.withdraw m scope p (w.findIdentity routeId).2
          includeDeltas).2) := by
  have hsett := withdraw_settled w.db w.cache m scope p
    ((w.db.identities.find? routeId).map Identity.id) includeDeltas
  rw [settle_findIdentity, db_findIdentity, hw.findIdentity_snd]
  rw [settle_of_pending_nil hnil, settle_of_pending_nil hnil]
  exact hsett

theorem applyEvent_settle (hp : m.partition = .ok partition) (includeDeltas : Bool) :
    w.settle.applyEvent m partition includeDeltas =
      (w.applyEvent m partition includeDeltas).map fun x => (x.1.settle, x.2) := by
  have hnil : m.eventType.action ≠ .announce → w.pending = [] := fun hne =>
    pending_eq_nil (hw.deferred_eq_false (upserted_eq_none hne))
  unfold Db.applyEvent applyEvent
  cases ha : m.eventType.action <;> cases hs : m.scope <;> cases hpp : partition <;> dsimp only
  case announce.some.some scope p =>
    subst hpp
    cases hr : m.route with
    | none =>
      show (w.db.announceNothing m scope p includeDeltas >>= _) = _
      cases w.db.announceNothing m scope p includeDeltas <;> rfl
    | some _ =>
      have hup := (upserted_eq ha).trans hr
      dsimp only
      rw [hw.resolveObjects_eq hup]
      exact hw.announce_settle hp hs hup includeDeltas
  case withdraw.some.some scope p =>
    have hnil' := hnil (by rw [ha]; decide)
    cases hr : m.route with
    | none =>
      have hsett := withdraw_settled w.db w.cache m scope p none includeDeltas
      show Except.ok (w.settle.withdraw m scope p none includeDeltas) = Except.ok
        (settle _,
          _)
      rw [settle_of_pending_nil hnil', settle_of_pending_nil hnil', hsett]
    | some route =>
      exact congrArg Except.ok
        (hw.withdrawEvent_settle hnil' scope p route.identity.id includeDeltas)
  case close.none.none | close.none.some | close.some.none | close.some.some =>
    exact apply_settle (hnil (by rw [ha]; decide)) (fun db => db.close m)
      (close_settled w.db w.cache m)
  case markEor.some.none scope | markEor.some.some scope _ =>
    refine apply_settle (hnil (by rw [ha]; decide))
      (fun db => db.markScopeEor scope.id scope.epoch m.connection.id) ?_
    rfl
  case markTimeout.some.none scope | markTimeout.some.some scope _ =>
    refine apply_settle (hnil (by rw [ha]; decide))
      (fun db => db.markScopeTimeout scope.id scope.epoch m.connection.id) ?_
    rfl
  all_goals rfl

/-! ## A batch stays ready -/

theorem tail : w.Ready rest := by
  have hmem : ∀ {m'}, m' ∈ rest → m' ∈ m :: rest := mem_cons_of_mem m
  refine ⟨hw.context, fun m' h => hw.objects m' (hmem h), fun h => ?_, fun h => ?_⟩
  · have hreads := hw.reads h
    exact ⟨fun m' h => hreads.announces m' (hmem h),
      fun refs hrefs m' h => hreads.exact refs hrefs m' (hmem h), hreads.repeats.2⟩
  · obtain ⟨hsome, p, scopeId, connection, epoch, hd⟩ := hw.defers h
    refine ⟨hsome, p, scopeId, connection, epoch, ?_⟩
    exact ⟨fun m' h => hd.context m' (hmem h), fun m' h => hd.placed m' (hmem h), hd.rows,
      fun r hr m' h => hd.apart r hr m' (hmem h), (pairwise_cons.mp hd.distinct).2,
      hd.written, hd.settled⟩

theorem resolved (hm : w.IsNew m) : (w.resolved m).Ready (m :: rest) := by
  refine hw.congr (hw.context.resolved hm) (fun _ => rfl) ?_
  rintro _ connection _ hall ⟨⟨scope, hscope, hcases⟩, hsome⟩
  have hid : m.connection.id = connection := hall m (mem_cons_self ..)
  subst hid
  have hsame := fun id => generationOf_upsertConnection _
    m.source.id m.eventAtMs hsome id
  refine ⟨⟨scope, hscope, hcases.imp_right fun h => ⟨h.1, ?_⟩⟩, ?_⟩
  · rw [← h.2]
    exact replacesScopeConnection_congr hsame scope _
  · rw [find?_upsertConnection, if_pos rfl]
    rfl

/-- The owner of the scope of what is put off does not change any more. -/
theorem ownsScope_upsertScope (hscope : m.scope = some scope)
    (p : RoutePartition) (r : RouteParams κ) (hr : r ∈ w.pending) :
    (w.db.upsertScope (m.scopeParams scope p)).owns r = w.db.owns r := by
  cases hd : w.cache.deferredMetadataRefresh.isSome with
  | false =>
    rw [pending_eq_nil hd] at hr
    cases hr
  | true =>
    obtain ⟨-, _, _, _, _, hdef⟩ := hw.defers hd
    obtain ⟨rfl, _, hscope', rfl, rfl⟩ := hdef.context m (mem_cons_self ..)
    cases hscope.symm.trans hscope'
    have hsett := (hdef.settled (hdef.written (ne_nil_of_mem hr))).1
    have howns := Db.ScopeSettled.ownsScope_upsertScope (p := m.scopeParams scope p) hsett
    unfold owns
    rw [(hdef.rows r hr).2.1]
    exact howns r.key.partition r.connection r.epoch

theorem scopeResolved (hscope : m.scope = some scope) (hc : collides w.db m scope p = false)
    (hsome : ((w.scopeResolved m scope p).db.scopes.find? scope.id).isNone = false)
    (hconn : (w.db.connections.find? m.connection.id).isSome) :
    (w.scopeResolved m scope p).Ready (m :: rest) := by
  have hrts : (w.scopeResolved m scope p).db.routes = w.db.routes := by
    unfold Work.scopeResolved
    split <;> rfl
  refine ⟨hw.context.scopeResolved hc hsome, hw.objects, fun h => ?_, fun h => ?_⟩
  · have hreads := hw.reads h
    refine ⟨hreads.announces, fun refs hrefs m' hm' key hkey => ?_, hreads.repeats⟩
    rw [hrts]
    exact hreads.exact refs hrefs m' hm' key hkey
  · obtain ⟨href, p', _, _, _, hd⟩ := hw.defers h
    obtain ⟨rfl, _, hscope', rfl, rfl⟩ := hd.context m (mem_cons_self ..)
    cases hscope.symm.trans hscope'
    refine ⟨href, p', scope.id, m.connection.id, scope.epoch, ?_⟩
    refine { hd with written := fun _ => ?_, settled := fun _ => ?_ }
    · rw [scopes_scopeResolved]
      rfl
    · unfold Work.scopeResolved
      split
      · rename_i hskip
        refine hd.settled ?_
        rw [of_decide_eq_true hskip]
        rfl
      · refine ⟨?_, hconn⟩
        refine scopeSettled_upsertScope fun row hrow => ?_
        have hval := validation_of_not_collides hc hrow
        exact ⟨congrArg ScopeValidation.partition hval, congrArg ScopeValidation.source hval⟩

theorem refresh (hp : m.partition = .ok (some p))
    (hscope : m.scope = some scope) (hkey : m.IsAbout (m.routeParams scope p route).key)
    (hwr : (w.cache.scopes scope.id).isSome) :
    (w.refresh (m.routeParams scope p route)).Ready rest := by
  unfold Work.refresh
  cases hd : w.cache.deferredMetadataRefresh with
  | none =>
    refine hw.tail.congr (hw.context.congr rfl) (fun key => ?_) fun _ _ _ _ h => h
    show ((w.db.routes.modify _ (w.db.key_refreshRow _)).find? key).map refs = _
    rw [Table.find?_modify, Option.map_map]
    congr 1
    funext r
    exact w.db.refs_refreshRow _ r
  | some _ =>
    have hrows := pending_eq hd
    refine ⟨hw.context.congr rfl, hw.tail.objects, ?_, ?_⟩
    · intro h
      have hreads := hw.tail.reads h
      exact { hreads with }
    · intro _
      obtain ⟨href, _, _, _, _, hdef⟩ := hw.defers (by rw [hd]; rfl)
      obtain ⟨rfl, _, hscope', rfl, rfl⟩ := hdef.context m (mem_cons_self ..)
      cases hscope.symm.trans hscope'
      have hplc := hdef.placed m (mem_cons_self ..)
      rw [hp] at hplc
      cases hplc
      have hdist := (pairwise_cons.mp hdef.distinct)
      refine ⟨href, p, scope.id, m.connection.id, scope.epoch, ?_⟩
      refine ⟨fun m' h => hdef.context m' (mem_cons_of_mem m h),
        fun m' h => hdef.placed m' (mem_cons_of_mem m h), ?_, ?_, hdist.2,
        fun _ => hwr, hdef.settled⟩
      · refine forall_mem_append.mpr ⟨fun r hr => hdef.rows r (hrows ▸ hr), ?_⟩
        exact forall_mem_singleton.mpr ⟨rfl, rfl, rfl, rfl⟩
      · refine forall_mem_append.mpr ⟨fun r hr m' hm' => ?_, forall_mem_singleton.mpr ?_⟩
        · exact hdef.apart r (hrows ▸ hr) m' (mem_cons_of_mem m hm')
        · exact fun m' hm' => hdist.1 m' hm' _ hkey

theorem writeRoute (hkey : m.IsAbout params.key) (objects : List (SharedObject κ)) :
    (rememberRefs { w with db := (w.db.writeRoute params.row).addGcCandidates objects }
      params).Ready rest := by
  have hreads := fun h => (hw.reads h).writeRoute hkey objects
  obtain ⟨_, hform, hsome⟩ := rememberRefs_eq
    { w with db := (w.db.writeRoute params.row).addGcCandidates objects } params
  rw [hform] at hreads ⊢
  refine ⟨hw.context.congr rfl, hw.tail.objects, fun h => hreads (hsome ▸ h), fun h => ?_⟩
  obtain ⟨href, p, scopeId, connection, epoch, hd⟩ := hw.tail.defers h
  exact ⟨hsome.trans href, p, scopeId, connection, epoch, { hd with }⟩

theorem announce (hp : m.partition = .ok (some p))
    (hscope : m.scope = some scope) (hroute : m.route = some route)
    (hwr : (w.cache.scopes scope.id).isSome)
    (h : w.announce m scope p route includeDeltas = .ok x) : x.1.Ready rest := by
  have hkey := (isAbout_iff hp hscope hroute).mpr rfl
  unfold Work.announce at h
  dsimp only at h
  split at h
  · cases h
    exact hw.refresh hp hscope hkey hwr
  · obtain ⟨⟨_, _, _⟩, hann, h⟩ := bind_ok.mp h
    cases h
    obtain ⟨_, hups, hdb⟩ := announceRoute_ok hann
    rcases upsertRoute_ok hups with ⟨hnot, -⟩ | ⟨hdone, -, -⟩
    · cases hnot
      rw [hdb]
      exact hw.tail.addGcCandidates _
    · cases hdone
      rw [hdb]
      exact hw.writeRoute hkey _

/-- Without rows that were read ahead only the caches for the context count. -/
theorem of_context {db : Db κ} {known : List κ}
    (hm : m.upserted = none) (hctx : Context ⟨db, { w.cache with routeIdentities := known }⟩)
    (hknown : w.cache.routeIdentities ⊆ known) :
    Ready ⟨db, { w.cache with routeIdentities := known }⟩ rest := by
  refine ⟨hctx, fun m' hm' route hroute => ?_, fun h => ?_, fun h => ?_⟩
  · obtain ⟨hid, hrest⟩ := hw.tail.objects m' hm' route hroute
    exact ⟨hknown hid, hrest⟩
  · cases (hw.refs_eq_none hm).symm.trans h
  · cases (hw.deferred_eq_false hm).symm.trans h

theorem applyEvent (hp : m.partition = .ok partition)
    (hwr : ∀ scope p, m.scope = some scope → partition = some p →
      (w.cache.scopes scope.id).isSome) (h : w.applyEvent m partition includeDeltas = .ok x) :
    x.1.Ready rest := by
  have hnone : m.eventType.action ≠ .announce → m.upserted = none := upserted_eq_none
  unfold Work.applyEvent at h
  cases ha : m.eventType.action <;> cases hs : m.scope <;> cases hpp : partition <;>
    simp only [ha, hs, hpp] at h
  case announce.some.some scope p =>
    subst hpp
    cases hr : m.route with
    | none =>
      rw [hr] at h
      obtain ⟨_, -, h⟩ := bind_ok.mp h
      cases h
      exact hw.tail
    | some _ =>
      have hup := (upserted_eq ha).trans hr
      simp only [hr] at h
      rw [hw.resolveObjects_eq hup] at h
      exact hw.announce hp hs hr (hwr scope p hs rfl) h
  case withdraw.some.some scope p =>
    have hm := hnone (by rw [ha]; decide)
    cases hr : m.route with
    | none =>
      simp only [hr] at h
      cases h
      exact hw.of_context hm (hw.context.withdraw m scope p none includeDeltas) fun _ h => h
    | some route =>
      simp only [hr] at h
      cases h
      have hctx := hw.context.findIdentity route.identity.id
      obtain ⟨_, hfound, hsub⟩ := w.findIdentity_fst route.identity.id
      rw [hfound] at hctx ⊢
      exact hw.of_context hm (hctx.withdraw m scope p _ includeDeltas) hsub
  case close.none.none | close.none.some | close.some.none | close.some.some =>
    cases h
    exact hw.of_context (hnone (by rw [ha]; decide)) (hw.context.close m) fun _ h => h
  case markEor.some.none | markEor.some.some | markTimeout.some.none | markTimeout.some.some =>
    cases h
    refine hw.of_context (hnone (by rw [ha]; decide)) ?_ fun _ h => h
    exact hw.context.modifyScopes _ (fun scope => by split <;> rfl) fun scope => by split <;> rfl
  case sample.none.none | sample.none.some | sample.some.none | sample.some.some =>
    cases h
    refine hw.of_context (hnone (by rw [ha]; decide)) ?_ fun _ h => h
    exact hw.context.congr rfl
  case nothing.none.none | nothing.none.some | nothing.some.none | nothing.some.some =>
    cases h
    exact hw.tail
  all_goals cases h

end Ready

end Work

end Bmp.Store
