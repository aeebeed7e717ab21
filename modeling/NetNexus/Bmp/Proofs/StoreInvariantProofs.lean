import NetNexus.Bmp.Proofs.StoreRefinementProofs
import NetNexus.Bmp.StoreMaintenance
import NetNexus.Table.Proofs.TallyProofs

/-!
# The database stays consistent

The counters count the current routes, the shared rows that they refer to are there, and so are
their scopes, over every sequence of batches, purges and sweeps.
-/

namespace Bmp.Store

open List Store.CurrentRoute Table

variable {κ : Type} {o : SharedObject κ} {r : CurrentRoute κ}

theorem mem_gcCandidates {identity payload attr : Option κ} :
    o ∈ Store.gcCandidates identity payload attr ↔ (∃ id, identity = some id ∧ o = .identity id) ∨
      (∃ json, payload = some json ∧ o = .payload json) ∨ ∃ id, attr = some id ∧ o = .attribute id
    := by
  unfold Store.gcCandidates
  simp [eq_comm]

theorem mem_gcCandidates_row : o ∈ r.gcCandidates ↔ r.RefersTo o := by
  unfold CurrentRoute.gcCandidates
  rw [mem_gcCandidates]
  cases o <;> simp [CurrentRoute.RefersTo, eq_comm]

variable [DecidableEq κ]

namespace Db

/-- The counters have the number of current routes of each group. -/
def Counted (db : Db κ) : Prop :=
  db.counts.Exact fun b => (db.routes.rows.map CurrentRoute.bucket).count b

/-- The scopes of current routes are there, and are related to the key of the route and to its
connection. -/
def PlacedBy (R : ScopeValidation κ → RouteKey κ → κ → Prop) (db : Db κ) : Prop :=
  ∀ r ∈ db.routes.rows, ∃ s, db.scopes.find? r.key.scope = some s ∧
    R s.validation r.key r.connection

/-- The scopes of current routes are there, in the partition of the route. -/
def Placed (db : Db κ) : Prop := db.PlacedBy fun v key _ => v.partition = key.partition

/-- What holds of the database at any time. -/
structure Consistent (db : Db κ) : Prop where
  refers : db.Refers
  placed : db.Placed
  counted : db.Counted
  sequenced : db.Sequenced

/-! ## Counting -/

theorem count_bucket_insert (before after : List (CurrentRoute κ)) (r : CurrentRoute κ)
    (b : Bucket κ) : ((before ++ r :: after).map bucket).count b =
      ((before ++ after).map bucket).count b + if b = r.bucket then 1 else 0 := by
  simp only [map_append, map_cons, count_append]
  by_cases hb : b = r.bucket
  · subst hb
    rw [if_pos rfl, count_cons_self]
    omega
  · rw [if_neg hb, count_cons_of_ne fun he => hb he.symm]
    omega

variable {db db' : Db κ} {m : Mutation κ} {includeDeltas : Bool}

theorem bucket_refreshRow (db : Db κ) (p : RouteParams κ) (r : CurrentRoute κ) :
    (db.refreshRow p r).bucket = r.bucket := by
  unfold refreshRow
  split <;> rfl

namespace Counted

variable (h : db.Counted)
include h

theorem writeRoute (r : CurrentRoute κ) : (db.writeRoute r).Counted := by
  unfold Counted Db.writeRoute
  cases hfind : db.routes.find? r.key with
  | none =>
    refine (Tally.Exact.up h r.bucket).congr fun b => ?_
    rw [rows_upsert_of_none hfind, count_bucket_insert, List.append_nil]
  | some old =>
    obtain ⟨before, after, hrows, hups⟩ := rows_upsert_split hfind
    unfold Counted at h
    rw [hrows] at h
    rw [hups]
    dsimp only
    by_cases hsame : old.bucket = r.bucket
    · rw [if_neg (not_not_intro hsame)]
      refine h.congr fun b => ?_
      rw [count_bucket_insert, count_bucket_insert, hsame]
    · have hpos : ((before ++ old :: after).map bucket).count old.bucket ≠ 0 := by
        rw [count_bucket_insert, if_pos rfl]
        omega
      rw [if_pos hsame]
      refine ((h.down hpos).up r.bucket).congr fun b => ?_
      rw [count_bucket_insert, count_bucket_insert]
      omega

theorem deleteRoutes (p : CurrentRoute κ → Bool) : (db.deleteRoutes p).Counted := by
  have hfold :
      (db.routes.rows.filter p).foldl (fun counts r => Tally.down counts r.bucket) db.counts =
      ((db.routes.rows.filter p).map bucket).foldl Tally.down db.counts := by
    rw [foldl_map]
  -- the rows are those that go and those that stay
  have hsplit : ∀ b, (db.routes.rows.map bucket).count b =
      ((db.routes.rows.filter p).map bucket).count b +
        ((db.routes.rows.filter fun r => !p r).map bucket).count b := by
    intro b
    have hperm := filter_append_perm p db.routes.rows
    rw [← count_append, ← map_append]
    exact ((hperm.map bucket).count_eq b).symm
  show Tally.Exact ((db.routes.rows.filter p).foldl _ db.counts) fun b =>
    ((db.routes.rows.filter fun r => !p r).map bucket).count b
  rw [hfold]
  refine (Tally.Exact.foldl_down h fun b => ?_).congr fun b => ?_
  · rw [hsplit]
    omega
  · have hb := hsplit b
    omega

theorem congr (hcounts : db'.counts = db.counts)
    (hbuck : db'.routes.rows.map bucket = db.routes.rows.map bucket) : db'.Counted := by
  unfold Counted
  rw [hcounts, hbuck]
  exact h

/-- An event counts the routes that it writes and deletes. -/
theorem effect (he : db.Effect m includeDeltas db') : db'.Counted := by
  cases he with
  | nothing | rejected | ignored | markedEor | markedTimeout | closed | sampled =>
    exact h.congr rfl rfl
  | refreshed =>
    refine h.congr rfl ?_
    show (db.routes.rows.map _).map _ = _
    rw [map_map]
    exact map_congr_left fun r _ => db.bucket_refreshRow _ r
  | announced => exact (h.writeRoute _).congr rfl rfl
  | withdrawn => exact (h.deleteRoutes _).congr rfl rfl

end Counted

/-! ## Placing -/

theorem resolveContext_frame (db : Db κ) (m : Mutation κ) :
    (db.resolveContext m).scopes = db.scopes ∧ (db.resolveContext m).counts = db.counts ∧
      (db.resolveContext m).gcCandidates = db.gcCandidates := by
  unfold resolveContext
  cases m.sequence <;> exact ⟨rfl, rfl, rfl⟩

theorem find?_resolveContext (db : Db κ) (m : Mutation κ) (id : κ) :
    ∃ f : ConnectionRow κ → ConnectionRow κ,
      (∀ row, (f row).generation = row.generation ∧ (f row).isOpen = row.isOpen) ∧
      (db.resolveContext m).connections.find? id =
        (if m.connection.id = id then some (db.connectionRow m.connection m.source.id m.eventAtMs)
        else db.connections.find? id).map f := by
  have hups := (db.upsertSource m.source).find?_upsertConnection m.connection m.source.id
    m.eventAtMs id
  unfold resolveContext
  cases m.sequence with
  | none => exact ⟨fun row => row, fun _ => ⟨rfl, rfl⟩, hups.trans Option.map_id'.symm⟩
  | some sequence =>
    refine ⟨ConnectionRow.advanceOf m.connection.id sequence, fun row => ?_, ?_⟩
    · unfold ConnectionRow.advanceOf ConnectionRow.advance
      split
      · split <;> exact ⟨rfl, rfl⟩
      · exact ⟨rfl, rfl⟩
    · exact (Table.find?_modify _ _ (ConnectionRow.id_advanceOf m.connection.id sequence) id).trans
        (congrArg _ hups)

theorem partition_of_ownsScope {p : RoutePartition} {scopeId connection : κ} {epoch : ℤ}
    (h : db.ownsScope p scopeId connection epoch = true) :
    ∃ s, db.scopes.find? scopeId = some s ∧ s.partition = p ∧ s.lastConnection = connection ∧
      s.currentEpoch = epoch := by
  unfold ownsScope at h
  cases hs : db.scopes.find? scopeId with
  | none =>
    rw [hs] at h
    cases h
  | some s =>
    rw [hs] at h
    simp only [Bool.and_eq_true, decide_eq_true_eq] at h
    exact ⟨s, rfl, h.1.1, h.1.2, h.2⟩

theorem isScopeOf_iff {sourceId scope : κ} : db.isScopeOf sourceId scope = true ↔
    ∃ s, db.scopes.find? scope = some s ∧ s.source = sourceId := by
  unfold isScopeOf
  rw [any_eq_true]
  constructor
  · rintro ⟨s, hs, hsame⟩
    rw [Bool.and_eq_true, decide_eq_true_eq, decide_eq_true_eq] at hsame
    exact ⟨s, find?_eq_some_iff.mpr ⟨hs, hsame.2⟩, hsame.1⟩
  · rintro ⟨s, hs, hsrc⟩
    obtain ⟨hmem, hid⟩ := find?_eq_some_iff.mp hs
    exact ⟨s, hmem, by rw [hsrc, hid]; simp⟩

namespace PlacedBy

variable {R : ScopeValidation κ → RouteKey κ → κ → Prop} (h : db.PlacedBy R)
include h

theorem mono (hrts : ∀ r ∈ db'.routes.rows, ∃ old ∈ db.routes.rows,
      old.key = r.key ∧ old.connection = r.connection)
    (hscs : ∀ r ∈ db'.routes.rows, ∀ s, db.scopes.find? r.key.scope = some s →
      ∃ s', db'.scopes.find? r.key.scope = some s' ∧ s'.validation = s.validation) :
    db'.PlacedBy R := by
  intro r hr
  obtain ⟨old, hold, hkey, hconn⟩ := hrts r hr
  obtain ⟨s, hs, hR⟩ := h old hold
  rw [hkey] at hs hR
  obtain ⟨s', hs', hval⟩ := hscs r hr s hs
  exact ⟨s', hs', by rw [hval, ← hconn]; exact hR⟩

theorem congr (hrts : db'.routes = db.routes) (hscs : db'.scopes = db.scopes) :
    db'.PlacedBy R := by
  unfold PlacedBy
  rw [hrts, hscs]
  exact h

theorem modifyScopes (f : ScopeRow κ → ScopeRow κ)
    (hf : ∀ s, (f s).id = s.id) (hval : ∀ s, (f s).validation = s.validation) :
    PlacedBy R { db with scopes := db.scopes.modify f hf } := by
  refine h.mono (fun r hr => ⟨r, hr, rfl, rfl⟩) fun r _ s hs => ⟨f s, ?_, hval s⟩
  rw [find?_modify, hs]
  rfl

theorem deleteRoutes (p : CurrentRoute κ → Bool) : (db.deleteRoutes p).PlacedBy R :=
  h.mono (fun r hr => ⟨r, mem_of_mem_filter hr, rfl, rfl⟩) fun _ _ s hs => ⟨s, hs, rfl⟩

theorem resolve {partition : Option RoutePartition} {skip : Bool}
    (hscope : (db.resolveContext m).resolveScope m partition skip = .ok db') :
    db'.PlacedBy R := by
  have hctx : (db.resolveContext m).PlacedBy R :=
    h.congr (db.sameRoutes_resolveContext m).routes (db.resolveContext_frame m).1
  rcases resolveScope_ok hscope with ⟨rfl, -⟩ | ⟨_, p, -, -, -, rfl, -⟩
  · exact hctx
  · cases skip with
    | true => exact hctx
    | false => exact hctx.mono (fun r hr => ⟨r, hr, rfl, rfl⟩) fun r _ s hs =>
        validation_upsertScope hs

/-- An event keeps the relation if the scope of its own route is related to the connection. -/
theorem effect (he : db.Effect m includeDeltas db')
    (hnew : ∀ scope p route s, m.scope = some scope → m.partition = .ok (some p) →
      db.scopes.find? scope.id = some s → s.partition = p →
        R s.validation (m.routeParams scope p route).key m.connection.id) : db'.PlacedBy R := by
  cases he with
  | nothing | rejected | ignored | sampled => exact h.congr rfl rfl
  | refreshed =>
    refine h.mono (fun r hr => ?_) fun _ _ s hs => ⟨s, hs, rfl⟩
    obtain ⟨old, hold, rfl⟩ := mem_map.mp hr
    exact ⟨old, hold, (db.key_refreshRow _ old).symm,
      (congrArg RouteRefs.connection (db.refs_refreshRow _ old)).symm⟩
  | announced hp hscope _ howns =>
    intro r hr
    rcases mem_upsert_rows hr with rfl | hold
    · obtain ⟨s, hs, hpart, -, -⟩ := partition_of_ownsScope howns
      exact ⟨s, hs, hnew _ _ _ s hscope hp hs hpart⟩
    · exact h r hold
  | withdrawn => exact (h.deleteRoutes _).congr rfl rfl
  | markedEor | markedTimeout =>
    exact h.modifyScopes _ (fun s => by split <;> rfl) fun s => by split <;> rfl
  | closed =>
    exact (h.modifyScopes _ (fun s => by split <;> rfl) fun s => by split <;> rfl).congr rfl rfl

end PlacedBy

namespace Placed

variable (h : db.Placed)
include h

theorem isRouteOf (sourceId : κ) (hr : r ∈ db.routes.rows) :
    db.isRouteOf sourceId r = db.isScopeOf sourceId r.key.scope := by
  unfold Db.isRouteOf
  cases hscope : db.isScopeOf sourceId r.key.scope with
  | false => rw [Bool.and_false]
  | true =>
    obtain ⟨s, hs, hsrc⟩ := isScopeOf_iff.mp hscope
    obtain ⟨_, hs', hp⟩ := h r hr
    rw [hs] at hs'
    cases hs'
    rw [Bool.and_true, any_eq_true]
    exact ⟨s, (find?_eq_some_iff.mp hs).1, by rw [hsrc, show s.partition = _ from hp]; simp⟩

/-- The routes that a purge leaves belong to other sources. -/
theorem isScopeOf_of_left {sourceId : κ}
    (hr : r ∈ (db.deleteRoutes (db.isRouteOf sourceId)).routes.rows) :
    db.isScopeOf sourceId r.key.scope = false := by
  obtain ⟨hmem, hnot⟩ := mem_filter.mp hr
  rw [h.isRouteOf sourceId hmem] at hnot
  simpa using hnot

theorem placedBy_deleteSource {R : ScopeValidation κ → RouteKey κ → κ → Prop}
    (hR : db.PlacedBy R) (sourceId : κ) : (db.deleteSource sourceId).PlacedBy R := by
  refine (hR.deleteRoutes (db.isRouteOf sourceId)).mono (fun r hr => ⟨r, hr, rfl, rfl⟩)
    fun r hr s hs => ⟨s, ?_, rfl⟩
  have hs' : db.scopes.find? r.key.scope = some s := hs
  have hnot := h.isScopeOf_of_left hr
  have hsrc : s.source ≠ sourceId := by
    intro he
    rw [isScopeOf_iff.mpr ⟨s, hs', he⟩] at hnot
    cases hnot
  show (db.scopes.filter _).find? _ = _
  rw [Table.find?_filter, hs']
  simp [hsrc]

end Placed

/-! ## Connections -/

/-- What the rows of the connections and the row of the mutation's own connection have holds for
the rows with the sequence number of the mutation. -/
theorem forall_connections_resolveContext {Q : ConnectionRow κ → Prop}
    (h : ∀ row ∈ db.connections.rows, Q row)
    (hnew : Q (db.connectionRow m.connection m.source.id m.eventAtMs))
    (hadvance : ∀ row sequence, Q row → row.lastSequence < sequence →
      Q { row with lastSequence := sequence }) :
    ∀ row ∈ (db.resolveContext m).connections.rows, Q row := by
  have hups : ∀ row ∈ ((db.upsertSource m.source).upsertConnection m.connection m.source.id
      m.eventAtMs).connections.rows, Q row := by
    intro row hrow
    rw [upsertConnection_eq] at hrow
    rcases mem_upsert_rows hrow with rfl | hold
    · exact hnew
    · exact h row hold
  unfold Db.resolveContext
  cases m.sequence with
  | none => exact hups
  | some sequence =>
    intro row hrow
    obtain ⟨old, hold, rfl⟩ := mem_map.mp hrow
    unfold ConnectionRow.advanceOf ConnectionRow.advance
    split
    · split
      · exact hadvance old sequence (hups old hold) ‹_›
      · exact hups old hold
    · exact hups old hold

theorem exists_connection_effect (he : db.Effect m includeDeltas db') {row : ConnectionRow κ}
    (hrow : row ∈ db'.connections.rows) : ∃ old ∈ db.connections.rows,
      row.id = old.id ∧ row.source = old.source ∧ row.lastSequence = old.lastSequence := by
  cases he with
  | closed =>
    obtain ⟨old, hold, rfl⟩ := mem_map.mp hrow
    refine ⟨old, hold, ?_⟩
    split <;> exact ⟨rfl, rfl, rfl⟩
  | nothing | refreshed | rejected | announced | ignored | withdrawn | markedEor | markedTimeout
    | sampled => exact ⟨row, hrow, rfl, rfl, rfl⟩

theorem Sequenced.resolveContext (h : db.Sequenced) (m : Mutation κ) :
    (db.resolveContext m).Sequenced := by
  refine forall_connections_resolveContext h ?_ fun row sequence hle hlt =>
    show 0 ≤ sequence by omega
  rw [lastSequence_connectionRow]
  unfold lastSequenceOf
  split
  · rename_i row hfind
    exact h row (find?_eq_some_iff.mp hfind).1
  · exact le_rfl

theorem Sequenced.effect (h : db.Sequenced) (he : db.Effect m includeDeltas db') :
    db'.Sequenced := by
  intro row hrow
  obtain ⟨old, hold, -, -, heq⟩ := exists_connection_effect he hrow
  rw [heq]
  exact h old hold

/-! ## Mutations -/

theorem hasObject_collectGarbage (db : Db κ) (limit : ℕ) (o : SharedObject κ) :
    (db.collectGarbage limit).HasObject o ↔
      db.HasObject o ∧ (o ∈ db.gcWork limit → db.isReferenced o = true) := by
  cases o with
  | identity _ | payload _ | «attribute» _ =>
    refine isSome_find?_filter ?_
    rintro r rfl
    simp [imp_iff_not_or]

namespace Consistent

variable (h : db.Consistent)
include h

theorem congr (hsame : db.SameRoutes db')
    (hscs : db'.scopes = db.scopes) (hcounts : db'.counts = db.counts)
    (hconns : db'.connections = db.connections) : db'.Consistent := by
  refine ⟨hsame.refers h.refers, h.placed.congr hsame.routes hscs,
    h.counted.congr hcounts (by rw [hsame.routes]), ?_⟩
  unfold Sequenced
  rw [hconns]
  exact h.sequenced

theorem insertObjects (m : Mutation κ) : (db.insertObjects m).Consistent := by
  have href := h.refers.insertObjects m
  rw [insertObjects_eq] at href ⊢
  exact ⟨href, h.placed.congr rfl rfl, h.counted.congr rfl rfl, h.sequenced⟩

/-- Resolving the source, the connection and the scope keeps the database consistent. -/
theorem resolve {partition : Option RoutePartition} {skip : Bool}
    {written : Db κ} (hscope : (db.resolveContext m).resolveScope m partition skip = .ok written) :
    written.Consistent := by
  have hctx := db.sameRoutes_resolveContext m
  have href := (sameRoutes_resolveScope hscope).refers (hctx.refers h.refers)
  have hplc := h.placed.resolve hscope
  have hcnt : (db.resolveContext m).Counted :=
    h.counted.congr (db.resolveContext_frame m).2.1 (by rw [hctx.routes])
  have hseqd := h.sequenced.resolveContext m
  rcases resolveScope_ok hscope with ⟨rfl, -⟩ | ⟨_, p, -, -, -, rfl, -⟩
  · exact ⟨href, hplc, hcnt, hseqd⟩
  · cases skip with
    | true => exact ⟨href, hplc, hcnt, hseqd⟩
    | false => exact ⟨href, hplc, hcnt.congr rfl rfl, hseqd⟩

theorem apply {hint : Hint κ} {x : Db κ × Bool × Option (Delta κ)}
    (hx : db.apply m includeDeltas hint = .ok x) : x.1.Consistent := by
  have hi := h.insertObjects m
  rcases applyFilled_ok hx with ⟨-, rfl⟩ | ⟨-, -, _, _, -, hscope, heff⟩
  · exact hi.congr ⟨rfl, rfl, rfl, rfl⟩ rfl rfl rfl
  · have hwr := hi.resolve hscope
    exact ⟨h.refers.apply hx, hwr.placed.effect heff fun _ _ _ _ _ _ _ hpart => hpart,
      hwr.counted.effect heff, hwr.sequenced.effect heff⟩

theorem applyBatch {batch : Batch κ} {x : Db κ × BatchResult κ}
    (hx : db.applyBatch batch = .ok x) : x.1.Consistent :=
  applyBatch_induct (fun _ _ _ h hx => h.apply hx) h.refers h.sequenced h
    (h.congr ⟨rfl, rfl, rfl, rfl⟩ rfl rfl rfl) hx

/-! ## Deleting routes and collecting -/

theorem deleteRoutes (p : CurrentRoute κ → Bool) : (db.deleteRoutes p).Consistent := by
  refine ⟨fun r hr o ho => ?_, h.placed.deleteRoutes p, h.counted.deleteRoutes p, h.sequenced⟩
  have hhas := h.refers r (mem_of_mem_filter hr) o ho
  cases o <;> exact hhas

theorem addGcCandidates (objects : List (SharedObject κ)) :
    (db.addGcCandidates objects).Consistent :=
  h.congr ⟨rfl, rfl, rfl, rfl⟩ rfl rfl rfl

theorem collectGarbage (limit : ℕ) : (db.collectGarbage limit).Consistent := by
  refine ⟨fun r hr o ho => ?_, h.placed.congr rfl rfl, h.counted.congr rfl rfl, h.sequenced⟩
  have hmem : r ∈ db.routes.rows := hr
  exact (db.hasObject_collectGarbage limit o).mpr
    ⟨h.refers r hmem o ho, fun _ => any_eq_true.mpr ⟨r, hmem, decide_eq_true ho⟩⟩

theorem modifyScopes (f : ScopeRow κ → ScopeRow κ)
    (hf : ∀ s, (f s).id = s.id) (hval : ∀ s, (f s).validation = s.validation) :
    Consistent { db with scopes := db.scopes.modify f hf } :=
  ⟨(SameRoutes.mk rfl rfl rfl rfl).refers h.refers, h.placed.modifyScopes f hf hval,
    h.counted.congr rfl rfl, h.sequenced⟩

theorem deleteSource (sourceId : κ) : (db.deleteSource sourceId).Consistent := by
  have hdel := h.deleteRoutes (db.isRouteOf sourceId)
  refine ⟨(SameRoutes.mk rfl rfl rfl rfl).refers hdel.refers,
    h.placed.placedBy_deleteSource h.placed sourceId, ?_, fun row hrow => ?_⟩
  · refine (Tally.Exact.filter hdel.counted fun b => !db.isScopeOf sourceId b.scope).congr
      fun b => ?_
    by_cases hb : db.isScopeOf sourceId b.scope = true
    · rw [hb, Bool.not_true, if_neg Bool.false_ne_true, count_eq_zero]
      intro hmem
      obtain ⟨r, hr, rfl⟩ := mem_map.mp hmem
      have hnot := h.placed.isScopeOf_of_left hr
      rw [show db.isScopeOf sourceId r.key.scope = true from hb] at hnot
      cases hnot
    · rw [Bool.not_eq_true] at hb
      rw [hb]
      rfl
  · exact h.sequenced row (mem_of_mem_filter hrow)

theorem purgeSource (sourceId : κ) : (db.purgeSource sourceId).Consistent := by
  unfold Db.purgeSource
  split
  · exact h
  · exact ((h.deleteSource sourceId).collectGarbage maxSafeInteger).congr ⟨rfl, rfl, rfl, rfl⟩ rfl
      rfl rfl

end Consistent

/-! ## Purges -/

/-- What a compact purge leaves to the collector. -/
def purgedObjects (rows : List (CurrentRoute κ)) : List (SharedObject κ) :=
  rows.map (fun r => .identity r.key.route) ++ rows.map (fun r => .payload r.payload) ++
    rows.flatMap fun r => r.attr.toList.map .attribute

omit [DecidableEq κ] in
theorem mem_purgedObjects {rows : List (CurrentRoute κ)} (hr : r ∈ rows) (ho : r.RefersTo o) :
    o ∈ purgedObjects rows := by
  cases o with
  | identity _ =>
    exact mem_append_left _ (mem_append_left _ (mem_map.mpr
      ⟨r, hr, congrArg SharedObject.identity ho⟩))
  | payload _ =>
    exact mem_append_left _ (mem_append_right _ (mem_map.mpr
      ⟨r, hr, congrArg SharedObject.payload ho⟩))
  | «attribute» id =>
    refine mem_append_right _ (mem_flatMap.mpr ⟨r, hr, ?_⟩)
    rw [show r.attr = some id from ho]
    exact mem_singleton_self _

variable {query : PurgeQuery κ} {x : Db κ × PurgeResult κ} {le : κ → κ → Bool}
  {options : SweepOptions κ}

theorem purgeStaleRoutes_ok (hx : db.purgeStaleRoutes query = .ok x) :
    ∃ deleted, (x.1 = deleted ∨ ∃ limit, x.1 = deleted.collectGarbage limit) ∧
      ((∃ rows, deleted = db.deleteRows rows) ∨
        ∃ rows, deleted = (db.addGcCandidates (purgedObjects rows)).deleteRoutes
          fun r => rows.contains r && db.isStaleRoute r) := by
  have hlimit : ∀ (deleted : Db κ) (b : Bool) limit,
      (if b then deleted else deleted.collectGarbage limit) = deleted ∨
        ∃ limit', (if b then deleted else deleted.collectGarbage limit) =
          deleted.collectGarbage limit' := by
    intro deleted b limit
    cases b with
    | true => exact .inl rfl
    | false => exact .inr ⟨limit, rfl⟩
  obtain ⟨-, hx⟩ := Control.ite_error_eq_ok.mp hx
  split at hx
  · obtain ⟨_, -, hx⟩ := Control.bind_ok.mp hx
    dsimp only at hx
    split at hx
    · cases hx
    · cases hx
      exact ⟨_, hlimit .., .inl ⟨_, rfl⟩⟩
  · unfold purgeStaleRoutesCompact at hx
    split at hx
    · cases hx
    · dsimp only at hx
      split at hx
      · cases hx
      · cases hx
        exact ⟨_, hlimit .., .inr ⟨_, rfl⟩⟩

/-! ## Sweeps -/

/-- The scopes after a sweep of their routes. -/
def finalize (db : Db κ) (options : SweepOptions κ) : Db κ :=
  ((db.finalizeCleanup options.mode).finalizeRefresh options).finalizeReconnect options

/-- A sweep deletes routes and finalizes scopes; in maintenance it also trims and collects. -/
theorem sweep_ok {x : Db κ × SweepResult} (hx : db.sweep le options = .ok x) :
    x.1 = (db.sweepRoutes le options).1.finalize options ∨ ∃ limit,
      x.1 = (((db.sweepRoutes le options).1.finalize options).sweepAuxiliary options.eventsBeforeMs
        limit).collectGarbage limit := by
  unfold Db.sweep at hx
  dsimp only at hx
  split at hx
  · cases hx
  · cases hx
    exact .inl rfl
  · cases hx
    exact .inr ⟨_, rfl⟩

/-! ## Whole runs -/

theorem consistent_empty : (Db.empty : Db κ).Consistent :=
  ⟨forall_mem_nil _, forall_mem_nil _, fun _ => rfl, forall_mem_nil _⟩

/-- What the statements of purges and sweeps keep. -/
structure Upkeep (P : Db κ → Prop) : Prop where
  deleteRoutes : ∀ {db : Db κ} (p : CurrentRoute κ → Bool) {objects : List (SharedObject κ)},
    (∀ r ∈ db.routes.rows, p r = true → ∀ o, r.RefersTo o → o ∈ objects) → P db →
      P ((db.deleteRoutes p).addGcCandidates objects)
  collectGarbage : ∀ {db : Db κ} (limit : ℕ), P db → P (db.collectGarbage limit)
  modifyScopes : ∀ {db : Db κ} (f : ScopeRow κ → ScopeRow κ) (hf : ∀ s, (f s).id = s.id),
    (∀ s, (f s).validation = s.validation) → P db → P { db with scopes := db.scopes.modify f hf }
  sweepAuxiliary : ∀ {db : Db κ} (eventsBeforeMs : ℤ) (auxiliaryLimit : ℕ), P db →
    P (db.sweepAuxiliary eventsBeforeMs auxiliaryLimit)

namespace Upkeep

variable {P : Db κ → Prop} (hP : Upkeep P) (h : P db)
include hP h

theorem deleteRows (rows : List (CurrentRoute κ)) : P (db.deleteRows rows) := by
  induction rows generalizing db with
  | nil => exact h
  | cons r _ ih =>
    refine ih (hP.deleteRoutes _ (fun old hold hkey o ho => ?_) h)
    rw [find?_eq_some_iff.mpr ⟨hold, of_decide_eq_true hkey⟩]
    exact mem_flatMap.mpr ⟨old, mem_singleton_self old, mem_gcCandidates_row.mpr ho⟩

theorem purgeStaleRoutes (hx : db.purgeStaleRoutes query = .ok x) : P x.1 := by
  obtain ⟨deleted, hcoll, hdel⟩ := purgeStaleRoutes_ok hx
  have hkept : P deleted := by
    rcases hdel with ⟨rows, rfl⟩ | ⟨-, rfl⟩
    · exact hP.deleteRows h rows
    · -- the candidates are marked before their rows are deleted
      refine hP.deleteRoutes _
        (fun r _ hr o ho => ?_) h
      rw [Bool.and_eq_true, contains_iff_mem] at hr
      exact mem_purgedObjects hr.1 ho
  rcases hcoll with heq | ⟨limit, heq⟩
  · exact heq ▸ hkept
  · exact heq ▸ hP.collectGarbage limit hkept

theorem sweepRoutes (le : κ → κ → Bool) (options : SweepOptions κ) :
    P (db.sweepRoutes le options).1 := by
  refine foldlRecOn (motive := fun swept : Db κ × ℕ => P swept.1) _ _ h fun swept h scope _ => ?_
  unfold sweepScope
  split
  · exact h
  · exact hP.deleteRows h _

theorem finalize (options : SweepOptions κ) : P (db.finalize options) := by
  have hclea : P (db.finalizeCleanup options.mode) :=
    hP.modifyScopes _ (fun s => by split <;> rfl) (fun s => by split <;> rfl) h
  have hrefr : P ((db.finalizeCleanup options.mode).finalizeRefresh options) :=
    hP.modifyScopes _ (fun s => by split <;> rfl) (fun s => by split <;> rfl) hclea
  exact hP.modifyScopes _ (fun s => by split <;> rfl) (fun s => by split <;> rfl) hrefr

theorem sweep {x : Db κ × SweepResult} (hx : db.sweep le options = .ok x) : P x.1 := by
  have hfinal := hP.finalize (hP.sweepRoutes h le options) options
  rcases sweep_ok hx with heq | ⟨limit, heq⟩
  · exact heq ▸ hfinal
  · exact heq ▸ hP.collectGarbage limit (hP.sweepAuxiliary _ _ hfinal)

omit [DecidableEq κ] hP in
theorem commit {α : Type} {result : Except (Failure κ) (Db κ × α)}
    (hok : ∀ x, result = .ok x → P x.1) : P (db.commit result) := by
  cases result with
  | error e => exact h
  | ok x => exact hok x rfl

theorem call (le : κ → κ → Bool) {call : Call κ}
    (hbatch : ∀ {batch : Batch κ} {x : Db κ × BatchResult κ}, call = .applyBatch batch →
      db.applyBatch batch = .ok x → P x.1)
    (hsrc : ∀ sourceId, call = .purgeSource sourceId → P (db.purgeSource sourceId)) :
    P (db.call le call) := by
  cases call with
  | applyBatch _ => exact commit h fun x hx => hbatch rfl hx
  | purgeStaleRoutes _ => exact commit h fun x hx => hP.purgeStaleRoutes h hx
  | purgeSource sourceId => exact hsrc sourceId rfl
  | sweep _ => exact commit h fun x hx => hP.sweep h hx

end Upkeep

theorem Consistent.upkeep : Upkeep (Consistent : Db κ → Prop) where
  deleteRoutes p _ _ h := (h.deleteRoutes p).addGcCandidates _
  collectGarbage limit h := h.collectGarbage limit
  modifyScopes f hf hval h := h.modifyScopes f hf hval
  sweepAuxiliary _ _ h := h.congr ⟨rfl, rfl, rfl, rfl⟩ rfl rfl rfl

theorem Consistent.run (h : db.Consistent) (le : κ → κ → Bool) (calls : List (Call κ)) :
    (db.run le calls).Consistent := by
  induction calls generalizing db with
  | nil => exact h
  | cons _ _ ih =>
    exact ih (Consistent.upkeep.call h le (fun _ => h.applyBatch) fun sourceId _ =>
      h.purgeSource sourceId)

/-- Over every sequence of calls, the scope of a current route is there in the partition of the
route, and no connection has a negative sequence number. -/
theorem routes_placed (le : κ → κ → Bool) (calls : List (Call κ)) :
    let db := (Db.empty : Db κ).run le calls
    (∀ r ∈ db.routes.rows, ∃ scope, db.scopes.find? r.key.scope = some scope ∧
      scope.partition = r.key.partition) ∧
    ∀ connection ∈ db.connections.rows, 0 ≤ connection.lastSequence :=
  have h := consistent_empty.run le calls
  ⟨h.placed, h.sequenced⟩

end Db

/-! ## Small mutations -/

/-- The IPv4 unicast routes of a peer of the source. -/
def sampleScope (source : ℕ) (epoch : ℤ) (state : ScopeState) : Scope ℕ where
  id := source
  sourceId := source
  identity := source
  kind := .peer
  ownerKey := none
  vrfName := none
  afi := 1
  safi := 1
  ribType := 0
  epoch := epoch
  state := some state
  reason := none

def sampleRoute (id payload : ℕ) : Route ℕ where
  identity := ⟨id, 1, 1, id, none, none, none⟩
  routeJson := payload
  attrId := none
  attrJson := none

/-- A mutation of the connection whose id is its generation, at the time of its sequence number. -/
def sampleMutation (eventType : EventType ℕ) (source connection : ℕ) (sequence : ℤ)
    (scope : Option (Scope ℕ)) (route : Option (Route ℕ)) : Mutation ℕ where
  eventType := eventType
  sequence := some sequence
  eventAtMs := sequence
  sourceTimestampMs := none
  reason := none
  source := ⟨source, source, source, none, none, none, none⟩
  connection := ⟨connection, source, connection, none, none, none, none, none⟩
  scope := scope
  route := route
  statistics := ⟨none, 0⟩

def sampleBatch (id : ℕ) (mutations : List (Mutation ℕ)) (includeDeltas : Bool) : Batch ℕ :=
  ⟨id, 0, mutations, includeDeltas⟩

end Bmp.Store
