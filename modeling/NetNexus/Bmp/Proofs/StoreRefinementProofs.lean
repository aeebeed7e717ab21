import Mathlib.Data.List.ReduceOption
import NetNexus.Bmp.Proofs.StoreStepProofs

/-!
# A batch refines the mutations without caches

Each mutation of a batch does to the settled database what it does without caches, so that a batch
is the run of its mutations over the database in which its shared rows are inserted.
-/

namespace Bmp.Store

open Control Except List

variable {κ : Type} [DecidableEq κ] {m : Mutation κ} {batch : Batch κ}

omit [DecidableEq κ] in
theorem Mutation.partition_eq {scope : Scope κ} {route : Route κ} (hscope : m.scope = some scope)
    (hroute : m.route = some route) {found : Option (RouteKey κ)} (h : m.routeKey = .ok found) :
    ∃ p, m.partition = .ok (some p) ∧
      resolveBmpRoutePartition scope.kind scope.afi scope.safi = .ok p := by
  obtain ⟨_, hp, -⟩ := bind_ok.mp h
  have hpart := hp
  unfold Mutation.partition at hp
  rw [hscope, hroute] at hp
  dsimp only at hp
  cases hassert : assertBmpRouteMatchesScope route.identity.afi route.identity.safi scope.kind
      scope.afi scope.safi with
  | error e =>
    rw [hassert] at hp
    cases hp
  | ok p =>
    rw [hassert] at hp
    cases hp
    refine ⟨p, hpart, ?_⟩
    obtain ⟨_, hp', hassert⟩ := bind_ok.mp hassert
    obtain ⟨_, -, hassert⟩ := bind_ok.mp hassert
    replace hassert := (ite_error_eq_ok.mp hassert).2
    cases hassert
    exact hp'

namespace Db

/-! ## Mutations whose shared rows are there -/

/-- Mutations one after the other, each with its hint, over a database with their shared rows. -/
def applyFilledAll (includeDeltas : Bool) :
    Db κ → List (Mutation κ × Hint κ) → Except (Failure κ) (Db κ × ℕ × List (Delta κ))
  | db, [] => .ok (db, 0, [])
  | db, (m, hint) :: ms => do
    let (db, applied, delta) ← db.applyFilled m includeDeltas hint
    let (db, count, deltas) ← applyFilledAll includeDeltas db ms
    return (db, (if applied then 1 else 0) + count, delta.toList ++ deltas)

variable {db : Db κ}

namespace Refers

variable (hrefers : db.Refers)
include hrefers

theorem insertObjects (m : Mutation κ) : (db.insertObjects m).Refers := by
  intro r hr o ho
  have hrts : (db.insertObjects m).routes = db.routes := by rw [insertObjects_eq]; rfl
  rw [hrts] at hr
  exact (db.objectsIn_insertObjects m).hasObject (hrefers r hr o ho)

theorem apply {includeDeltas : Bool} {hint : Hint κ}
    {x : Db κ × Bool × Option (Delta κ)} (h : db.apply m includeDeltas hint = .ok x) : x.1.Refers :=
  (hrefers.insertObjects m).applyFilled (db.hasObjectsOf_insertObjects m) h

/-- A mutation looks at no shared rows that are inserted for those after it. -/
theorem applyFilled_fill (m : Mutation κ) (ms : List (Mutation κ))
    (includeDeltas : Bool) (hint : Hint κ) : (db.fill (m :: ms)).applyFilled m includeDeltas hint =
      (db.apply m includeDeltas hint).map fun x => (x.1.fill ms, x.2) := by
  have hframe := applyFilled_withObjects (hrefers.insertObjects m)
    ((db.insertObjects m).objectsIn_fill ms) (db.hasObjectsOf_insertObjects m) includeDeltas hint
  rw [← fill_eq] at hframe
  refine hframe.trans ?_
  unfold Db.apply
  cases hm : (db.insertObjects m).applyFilled m includeDeltas hint with
  | error e => rfl
  | ok x =>
    show ok _ = ok (x.1.fill ms, x.2)
    rw [fill_of_withObjects (withObjects_of_applyFilled hm)]

/-- It makes no difference whether shared rows are inserted at once or before each mutation. -/
theorem applyFilledAll_fill (includeDeltas : Bool) (ms : List (Mutation κ × Hint κ)) :
    (db.fill (ms.map Prod.fst)).applyFilledAll includeDeltas ms = db.applyAll includeDeltas ms := by
  induction ms generalizing db with
  | nil => rfl
  | cons m ms ih =>
    obtain ⟨m, hint⟩ := m
    unfold applyFilledAll applyAll
    rw [map_cons, hrefers.applyFilled_fill]
    cases hm : db.apply m includeDeltas hint with
    | error e => rfl
    | ok x =>
      show ((x.1.fill _).applyFilledAll includeDeltas ms >>= _) = _
      rw [ih (hrefers.apply hm)]
      rfl

end Refers

theorem hasObjectsOf_fill (db : Db κ) {ms : List (Mutation κ)} (hm : m ∈ ms) :
    (db.fill ms).HasObjectsOf m := by
  induction ms generalizing db with
  | nil => cases hm
  | cons _ ms ih =>
    rcases mem_cons.mp hm with rfl | hrest
    · intro route hroute
      obtain ⟨hident, hpay, hattr⟩ := db.hasObjectsOf_insertObjects m route hroute
      have hin := (db.insertObjects m).objectsIn_fill ms
      exact ⟨hin.hasObject hident, hin.hasObject hpay,
        fun id hid => hin.hasObject (hattr id hid)⟩
    · exact ih _ hrest

/-- No connection has a negative sequence number. -/
def Sequenced (db : Db κ) : Prop := ∀ row ∈ db.connections.rows, 0 ≤ row.lastSequence

end Db

namespace Work

/-! ## One mutation -/

/-- The batch leaves out the write of the scope. -/
def skips (w : Work κ) (m : Mutation κ) (partition : Option RoutePartition) : Bool :=
  match m.scope, partition with
  | some scope, some p => w.skipsScope m scope p
  | _, _ => false

/-- What the caches make of a mutation. -/
def hint (w : Work κ) (m : Mutation κ) : Hint κ :=
  match m.partition with
  | .ok partition => ⟨w.skips m partition, (w.probe m).rejectedObjects m partition⟩
  | .error _ => {}

variable (w : Work κ)

theorem settle_probe (m : Mutation κ) : (w.probe m).settle = w.settle := by
  obtain ⟨connections, hprobe, hsame⟩ := w.probe_eq m
  rw [hprobe]
  have hadva : ∀ row,
      Cache.advance { w.cache with connections := connections } row = w.cache.advance row := by
    intro row
    rcases hsame row.id with hold | ⟨hnone, hnew⟩
    · exact Cache.advance_congr hold
    · exact (Cache.advance_of_clean fun _ h => by cases hnew.symm.trans h; rfl).trans
        (Cache.advance_of_clean fun _ h => by cases hnone.symm.trans h).symm
  have htable := Table.modify_congr (t := w.db.connections) (Cache.id_advance _)
    w.cache.id_advance fun row _ => hadva row
  exact congrArg (fun table => { w.settle with connections := table }) htable

variable {w : Work κ}

theorem Context.isReplay_settle (hw : w.Context) (m : Mutation κ) : w.settle.isReplay m =
    m.sequence.any (· ≤ (w.connectionState m.connection.id).lastSequence) := by
  unfold Db.isReplay
  rw [hw.lastSequenceOf_settle]

variable {m : Mutation κ}

theorem isNew_of_not_replay
    (h : ¬ m.sequence.any (· ≤ (w.connectionState m.connection.id).lastSequence) = true) :
    w.IsNew m := by
  intro sequence hseq
  rw [hseq, Option.any_some, decide_eq_true_eq] at h
  exact not_le.mp h

theorem find?_resolved_isSome (m : Mutation κ) :
    ((w.resolved m).db.connections.find? m.connection.id).isSome := by
  rw [find?_resolved_connections, if_pos rfl]
  rfl

variable {rest : List (Mutation κ)}

namespace Ready

variable (hw : w.Ready (m :: rest))
include hw

theorem resolveScope_settle (partition : Option RoutePartition) :
    w.settle.resolveScope m partition (w.skips m partition) =
      (w.resolveScope? m partition).map settle := by
  unfold resolveScope? skips
  cases hs : m.scope with
  | none =>
    unfold Db.resolveScope
    rw [hs]
    rfl
  | some _ =>
    cases partition with
    | none =>
      unfold Db.resolveScope
      rw [hs]
      rfl
    | some p =>
      exact hw.context.resolveScope_settle hs (hw.ownsScope_upsertScope hs p)

theorem resolveScope {partition : Option RoutePartition}
    (hconn : (w.db.connections.find? m.connection.id).isSome) {w' : Work κ}
    (h : w.resolveScope? m partition = .ok w') :
    w'.Ready (m :: rest) ∧ ∀ scope p, m.scope = some scope → partition = some p →
      w' = w.scopeResolved m scope p ∧ collides w.db m scope p = false := by
  unfold resolveScope? at h
  cases hs : m.scope with
  | none =>
    rw [hs] at h
    cases h
    exact ⟨hw, by simp⟩
  | some _ =>
    cases partition with
    | none =>
      rw [hs] at h
      cases h
      exact ⟨hw, by simp⟩
    | some p =>
      simp only [hs] at h
      rw [hw.context.resolveScope_eq] at h
      split at h
      · cases h
      · rename_i hc
        split at h
        · cases h
        · rename_i hsome
          cases h
          rw [Bool.not_eq_true] at hc hsome
          refine ⟨hw.scopeResolved hs hc hsome hconn, fun scope' p' hscope' hp' => ?_⟩
          cases hscope'
          cases hp'
          exact ⟨rfl, hc⟩

theorem applyMutation_settle (includeDeltas : Bool) :
    w.settle.applyFilled m includeDeltas (w.hint m) =
      (w.applyMutation m includeDeltas).map fun x => (x.1.settle, x.2) := by
  unfold Db.applyFilled applyMutation hint
  cases hp : m.partition with
  | error e => rfl
  | ok partition =>
    show (if w.settle.isReplay m = true then _ else _) = _
    dsimp only
    rw [hw.context.isReplay_settle]
    show _ = Except.map _ (if _ then _ else _)
    by_cases hr : m.sequence.any (· ≤ (w.connectionState m.connection.id).lastSequence) = true
    · rw [if_pos hr, if_pos hr]
      have hset := w.settle_probe m
      show ok _ = ok
        ((w.probe m).settle.addGcCandidates _, false, none)
      rw [hset]
    · rw [if_neg hr, if_neg hr, hw.context.resolved_eq]
      have hm := isNew_of_not_replay hr
      have hready := hw.resolved hm
      rw [← hw.context.settle_resolved hm]
      have hscope := hready.resolveScope_settle partition
      have hskips : w.skips m partition = (w.resolved m).skips m partition := rfl
      rw [hskips, hscope]
      cases hw' : (w.resolved m).resolveScope? m partition with
      | error e => rfl
      | ok written =>
        have hwr := (hready.resolveScope (w.find?_resolved_isSome m) hw').1
        show written.settle.applyEvent m partition includeDeltas >>= _ = _
        rw [hwr.applyEvent_settle hp]
        show _ = Except.map _ (written.applyEvent m partition includeDeltas >>= _)
        cases written.applyEvent m partition includeDeltas <;> rfl

variable {includeDeltas : Bool} {x : Work κ × Bool × Option (Delta κ)}

theorem applyMutation_ok (h : w.applyMutation m includeDeltas = .ok x) :
    ∃ partition, m.partition = .ok partition ∧
      ((w.settle.isReplay m = true ∧ x = ({ w.probe m with
          db := w.db.addGcCandidates ((w.probe m).rejectedObjects m partition) }, false, none)) ∨
        w.settle.isReplay m = false ∧ w.IsNew m ∧ ∃ written,
          (w.resolved m).resolveScope? m partition = .ok written ∧
          written.applyEvent m partition includeDeltas = .ok (x.1, x.2.2) ∧ x.2.1 = true) := by
  obtain ⟨partition, hp, h⟩ := bind_ok.mp h
  refine ⟨partition, hp, ?_⟩
  rw [hw.context.isReplay_settle]
  dsimp only at h
  split at h
  · rename_i hr
    refine .inl ⟨hr, ?_⟩
    rw [← w.db_probe]
    exact (Except.ok.inj h).symm
  · rename_i hr
    rw [hw.context.resolved_eq] at h
    obtain ⟨written, hscope, h⟩ := bind_ok.mp h
    obtain ⟨⟨_, _⟩, hevent, h⟩ := bind_ok.mp h
    cases h
    exact .inr ⟨by simpa using hr, isNew_of_not_replay hr, written, hscope, hevent, rfl⟩

theorem applyMutation (h : w.applyMutation m includeDeltas = .ok x) : x.1.Ready rest := by
  obtain ⟨_, hp, ⟨-, rfl⟩ | ⟨-, hm, _, hscope, hevent, -⟩⟩ := hw.applyMutation_ok h
  · have hdb := w.db_probe m
    rw [← hdb]
    exact (hw.tail.probe m).addGcCandidates _
  · obtain ⟨hready, hform⟩ :=
      (hw.resolved hm).resolveScope (w.find?_resolved_isSome m) hscope
    refine hready.applyEvent hp (fun scope p hs hpp => ?_) hevent
    rw [(hform scope p hs hpp).1, scopes_scopeResolved]
    rfl

end Ready

/-! ## The mutations of a batch -/

/-- The mutations with what the caches make of each. -/
def hints (includeDeltas : Bool) : Work κ → List (Mutation κ) → List (Mutation κ × Hint κ)
  | _, [] => []
  | w, m :: ms => (m, w.hint m) ::
    match w.applyMutation m includeDeltas with
    | .ok (w', _) => hints includeDeltas w' ms
    | .error _ => ms.map fun m => (m, {})

theorem map_fst_hints (includeDeltas : Bool) (w : Work κ) (ms : List (Mutation κ)) :
    (w.hints includeDeltas ms).map Prod.fst = ms := by
  induction ms generalizing w with
  | nil => rfl
  | cons m ms ih =>
    unfold hints
    rw [map_cons]
    congr 1
    cases w.applyMutation m includeDeltas with
    | ok x => exact ih x.1
    | error e =>
      rw [map_map]
      exact map_id ms

variable {includeDeltas : Bool} {ms : List (Mutation κ)}

theorem Ready.applyMutations_settle (hw : w.Ready ms) (includeDeltas : Bool) :
    w.settle.applyFilledAll includeDeltas (w.hints includeDeltas ms) =
      (w.applyMutations includeDeltas ms).map fun x => (x.1.settle, x.2) := by
  induction ms generalizing w with
  | nil => rfl
  | cons m ms ih =>
    have hstep := hw.applyMutation_settle includeDeltas
    unfold hints Db.applyFilledAll applyMutations
    rw [hstep]
    cases hm : w.applyMutation m includeDeltas with
    | error e => rfl
    | ok x =>
      have hrest := ih (hw.applyMutation hm)
      show (x.1.settle.applyFilledAll includeDeltas _ >>= _) = _
      rw [hrest]
      show _ = Except.map _ (x.1.applyMutations includeDeltas ms >>= _)
      cases x.1.applyMutations includeDeltas ms <;> rfl

theorem Ready.applyMutations (hw : w.Ready ms) {x : Work κ × ℕ × List (Delta κ)}
    (h : w.applyMutations includeDeltas ms = .ok x) : x.1.Ready [] := by
  induction ms generalizing w x with
  | nil =>
    cases h
    exact hw
  | cons m _ ih =>
    obtain ⟨y, hm, h⟩ := bind_ok.mp h
    obtain ⟨z, hrest, h⟩ := bind_ok.mp h
    cases h
    show z.1.Ready _
    exact ih (hw.applyMutation hm) hrest

/-- What is left at the end is written when the batch is committed. -/
theorem Ready.commit (hw : w.Ready []) :
    commitConnectionSequences w.flushDeferredMetadataRefresh w.cache = w.settle := by
  unfold flushDeferredMetadataRefresh
  cases hd : w.cache.deferredMetadataRefresh with
  | none =>
    have hnil : w.pending = [] := pending_eq_nil (by rw [hd]; rfl)
    unfold settle
    rw [hnil, Db.settled_nil]
  | some rows =>
    have hrows := pending_eq hd
    obtain ⟨-, p, _, _, _, hdef⟩ := hw.defers (by rw [hd]; rfl)
    have hctx := hdef.rows
    unfold settle
    rw [hrows] at hctx ⊢
    cases rows with
    | nil => rw [Db.settled_nil]
    | cons first rest =>
      -- all rows are about the scope, the connection and the epoch of the first one
      have hsame : ∀ row ∈ first :: rest, row.inContextOf first = row := by
        intro row hrow
        obtain ⟨h1, h2, h3, h4⟩ := hctx row hrow
        obtain ⟨h1', h2', h3', h4'⟩ := hctx first mem_cons_self
        obtain ⟨⟨_, _, _⟩, _, _, _, _, _, _⟩ := row
        simp only at h1 h2 h3 h4
        simp [RouteParams.inContextOf, h1, h2, h3, h4, h1', h2', h3', h4']
      have hfold : (first :: rest).foldl
          (fun db row => db.refreshRouteMetadata (row.inContextOf first)) w.db =
            (first :: rest).foldl Db.refreshRouteMetadata w.db :=
        foldl_ext _ _ w.db fun db row hrow => by rw [hsame row hrow]
      dsimp only
      rw [hfold, Db.foldl_refreshRouteMetadata]
      rfl

/-! ## A batch that starts -/

/-- The shared rows are inserted in the order of the mutations. -/
theorem db_prefillRouteObjectCaches (db : Db κ) (cache : Cache κ) (ms : List (Mutation κ)) :
    (prefillRouteObjectCaches ⟨db, cache⟩ ms).db = db.fill ms := by
  induction ms generalizing db with
  | nil => rfl
  | cons m ms ih =>
    show _ = (db.insertObjects m).fill ms
    rw [← ih]
    unfold prefillRouteObjectCaches Db.insertObjects
    cases hm : m.upserted with
    | none => rw [filterMap_cons_none hm]
    | some route =>
      rw [filterMap_cons_some hm]
      dsimp only
      cases ha : route.attribute? with
      | none =>
        rw [filterMap_cons_none ha]
        rfl
      | some _ =>
        rw [filterMap_cons_some ha]
        rfl

variable {db : Db κ}

theorem ready_prefillRouteObjectCaches (hseq : db.Sequenced) (ms : List (Mutation κ)) :
    (prefillRouteObjectCaches ⟨db, {}⟩ ms).Ready ms := by
  have hdb := db_prefillRouteObjectCaches db {} ms
  have hupse : ∀ m ∈ ms, ∀ route, m.upserted = some route →
      route ∈ ms.filterMap Mutation.upserted := fun m hm route hroute =>
    mem_filterMap.mpr ⟨m, hm, hroute⟩
  refine ⟨⟨nofun, nofun, nofun, nofun, hseq, nofun, fun id hid => ?_⟩,
    fun m hm route hroute => ?_, nofun, nofun⟩
  · obtain ⟨route, hroute, rfl⟩ := mem_map.mp hid
    obtain ⟨m, hm, hup⟩ := mem_filterMap.mp hroute
    rw [hdb]
    exact Option.isSome_iff_exists.mp (db.hasObjectsOf_fill hm route hup).1
  · have hmem := hupse m hm route hroute
    refine ⟨mem_map.mpr ⟨route, hmem, rfl⟩, mem_map.mpr ⟨route, hmem, rfl⟩, fun attr hattr => ?_⟩
    exact mem_map.mpr ⟨attr, mem_filterMap.mpr ⟨route, hmem, hattr⟩, rfl⟩

theorem repeats_of_mapM {found : List (Option (RouteKey κ))}
    (h : ms.mapM Mutation.routeKey = .ok found) (keys : List (RouteKey κ))
    (hle : ∀ key, found.reduceOption.count key ≤ keys.count key) :
    Repeats (keys.filter fun key => 1 < keys.count key) ms := by
  induction ms generalizing found with
  | nil => trivial
  | cons m _ ih =>
    rw [mapM_cons] at h
    obtain ⟨o, ho, h⟩ := bind_ok.mp h
    obtain ⟨rest, hrest, h⟩ := bind_ok.mp h
    cases h
    have hmono : ∀ key, rest.reduceOption.count key ≤ (o :: rest).reduceOption.count key := by
      intro key
      cases o with
      | none => exact le_rfl
      | some k => exact count_le_count_cons
    refine ⟨fun key hkey hagain => ?_, ih hrest fun key => (hmono key).trans (hle key)⟩
    obtain ⟨_, hm', hkey'⟩ := hagain
    have hmem : key ∈ rest.reduceOption := by
      obtain ⟨_, hmem', ho'⟩ := ok_of_mem_mapM hrest hm'
      rw [hkey'] at ho'
      cases ho'
      exact reduceOption_mem_iff.mpr hmem'
    have hcount : 1 < (o :: rest).reduceOption.count key := by
      rw [hkey] at ho
      cases ho
      show 1 < (key :: rest.reduceOption).count key
      rw [count_cons_self]
      exact Nat.lt_add_of_pos_left (count_pos_iff.mpr hmem)
    have hlt := hcount.trans_le (hle key)
    exact mem_filter.mpr ⟨count_pos_iff.mp (by omega), decide_eq_true hlt⟩

theorem ready_prefillCurrentRouteRefs {w' : Work κ} (hw : w.Ready ms)
    (hrefs : w.cache.currentRouteRefs = none) (hdefer : w.cache.deferredMetadataRefresh = none)
    (h : w.prefillCurrentRouteRefs ms = .ok w') :
    w'.Ready ms ∧ w'.db = w.db ∧ w'.cache.deferredMetadataRefresh = none ∧
      w'.cache.connections = w.cache.connections ∧ w'.cache.scopes = w.cache.scopes ∧
      (w'.cache.currentRouteRefs.isSome → ∃ found, ms.mapM Mutation.routeKey = .ok found) := by
  unfold prefillCurrentRouteRefs at h
  split at h
  · cases h
    refine ⟨hw, rfl, hdefer, rfl, rfl, fun hsome => ?_⟩
    rw [hrefs] at hsome
    cases hsome
  · rename_i hall
    obtain ⟨found, hfound, h⟩ := bind_ok.mp h
    cases h
    refine ⟨⟨?_, hw.objects, fun _ => ⟨?_, ?_, ?_⟩, fun hd => ?_⟩, rfl, hdefer, rfl, rfl,
      fun _ => ⟨found, hfound⟩⟩
    · exact hw.context.congr rfl
    · intro m hm
      simp only [not_or, not_not, all_eq_true, Bool.and_eq_true] at hall
      obtain ⟨hroute, hscope⟩ := hall.2 m hm
      obtain ⟨route, hroute⟩ := Option.isSome_iff_exists.mp hroute
      obtain ⟨scope, hscope⟩ := Option.isSome_iff_exists.mp hscope
      exact ⟨scope, route, hscope, hroute⟩
    · intro refs hrefs m hm key hkey
      cases hrefs
      obtain ⟨o, hmem, ho⟩ := ok_of_mem_mapM hfound hm
      rw [hkey] at ho
      cases ho
      exact if_pos (reduceOption_mem_iff.mpr hmem)
    · exact repeats_of_mapM hfound _ fun _ => le_rfl
    · rw [show w.cache.deferredMetadataRefresh = none from hdefer] at hd
      cases hd

theorem ready_prepareDeferredMetadataRefresh (hw : w.Ready ms)
    (hscs : w.cache.scopes = fun _ => none) (hfound : w.cache.currentRouteRefs.isSome →
      ∃ found, ms.mapM Mutation.routeKey = .ok found) :
    (w.prepareDeferredMetadataRefresh ms).Ready ms := by
  unfold prepareDeferredMetadataRefresh
  cases ms with
  | nil => exact hw
  | cons first rest =>
    dsimp only
    split
    · rename_i hcond
      obtain ⟨hsome, -, hsame, hnodup⟩ := hcond
      have hreads := hw.reads hsome
      obtain ⟨_, hfound⟩ := hfound hsome
      have hpart : ∀ m ∈ first :: rest, ∃ scope route p, m.scope = some scope ∧
          m.route = some route ∧ m.partition = .ok (some p) ∧
          resolveBmpRoutePartition scope.kind scope.afi scope.safi = .ok p := by
        intro m hm
        obtain ⟨scope, route, hscope, hroute⟩ := hreads.announces m hm
        obtain ⟨o, -, ho⟩ := ok_of_mem_mapM hfound hm
        have hroute := (Mutation.route_of_upserted hroute).2
        obtain ⟨p, hp, hreso⟩ := Mutation.partition_eq hscope hroute ho
        exact ⟨scope, route, p, hscope, hroute, hp, hreso⟩
      obtain ⟨scope, -, p, hscope, -, -, hreso⟩ := hpart first mem_cons_self
      have hctx : ∀ m ∈ first :: rest, m.connection = first.connection ∧
          m.scope = some scope := by
        intro m hm
        have hm := all_eq_true.mp hsame m hm
        unfold Mutation.sameContext at hm
        simp only [Bool.and_eq_true, decide_eq_true_eq] at hm
        exact ⟨hm.1.1.2, hm.1.2.trans hscope⟩
      refine ⟨?_, hw.objects, fun _ => { hreads with },
        fun _ => ⟨hsome, p, scope.id, first.connection.id, scope.epoch, ?_⟩⟩
      · exact hw.context.congr rfl
      · refine ⟨fun m hm => ?_, fun m hm => ?_, nofun,
          nofun, ?_, absurd rfl, fun h => ?_⟩
        · obtain ⟨hconn, hscope'⟩ := hctx m hm
          exact ⟨congrArg Connection.id hconn, scope, hscope', rfl, rfl⟩
        · obtain ⟨_, -, _, hscope', -, hp', hreso'⟩ := hpart m hm
          cases (hctx m hm).2.symm.trans hscope'
          rw [hreso] at hreso'
          cases hreso'
          exact hp'
        · refine (pairwise_filterMap.mp hnodup).imp_of_mem ?_
          intro m m' hm hm' hne key hkey hkey'
          obtain ⟨_, route₁, _, hs₁, hr₁, hp₁, -⟩ := hpart m hm
          obtain ⟨_, route₂, _, hs₂, hr₂, hp₂, -⟩ := hpart m' hm'
          have h₁ := (Mutation.isAbout_iff hp₁ hs₁ hr₁).mp hkey
          have h₂ := (Mutation.isAbout_iff hp₂ hs₂ hr₂).mp hkey'
          refine hne route₁.identity.id (by rw [hr₁]; rfl) route₂.identity.id (by rw [hr₂]; rfl) ?_
          exact congrArg RouteKey.route (h₁.symm.trans h₂)
        · rw [show w.cache.scopes = _ from hscs] at h
          cases h
    · exact hw

theorem prepareDeferredMetadataRefresh_eq (ms : List (Mutation κ)) :
    w.prepareDeferredMetadataRefresh ms = w ∨ w.prepareDeferredMetadataRefresh ms =
      { w with cache := { w.cache with deferredMetadataRefresh := some [] } } := by
  unfold prepareDeferredMetadataRefresh
  split
  · exact .inl rfl
  · split
    · exact .inr rfl
    · exact .inl rfl

/-- With nothing put off and no sequence number to write the database is settled. -/
theorem settle_of_fresh (hpend : w.pending = [])
    (hconns : w.cache.connections = fun _ => none) : w.settle = w.db := by
  have htable : w.db.connections.modify w.cache.advance w.cache.id_advance = w.db.connections := by
    refine Table.eq_of_rows ((map_congr_left fun row _ => ?_).trans (map_id _))
    refine Cache.advance_of_clean fun state h => ?_
    rw [hconns] at h
    cases h
  unfold settle
  rw [hpend, Db.settled_nil]
  unfold commitConnectionSequences
  rw [htable]

def prepare (db : Db κ) (batch : Batch κ) : Except (Failure κ) (Work κ) := do
  let started : Work κ := ⟨db.insertBatch batch, {}⟩
  let filled ← (started.prefillRouteObjectCaches batch.mutations).prefillCurrentRouteRefs
    batch.mutations
  return filled.prepareDeferredMetadataRefresh batch.mutations

theorem prepare_ok (hseq : db.Sequenced) (h : prepare db batch = .ok w) :
    w.Ready batch.mutations ∧ w.settle = (db.insertBatch batch).fill batch.mutations ∧
      w.cache.scopes = fun _ => none := by
  obtain ⟨filled, hfilled, h⟩ := bind_ok.mp h
  cases h
  have hins : (db.insertBatch batch).Sequenced := hseq
  have hstart := ready_prefillRouteObjectCaches hins batch.mutations
  obtain ⟨hready, hdb, hdefer, hconns, hscs, hfound⟩ :=
    ready_prefillCurrentRouteRefs hstart rfl rfl hfilled
  have hfill := db_prefillRouteObjectCaches (db.insertBatch batch) {} batch.mutations
  refine ⟨ready_prepareDeferredMetadataRefresh hready hscs hfound, ?_⟩
  rcases filled.prepareDeferredMetadataRefresh_eq batch.mutations with heq | heq
  · rw [heq, settle_of_fresh (pending_eq_nil (by rw [hdefer]; rfl)) hconns]
    exact ⟨hdb.trans hfill, hscs⟩
  · rw [heq, settle_of_fresh rfl (by exact hconns)]
    exact ⟨hdb.trans hfill, hscs⟩

/-- The batch goes on from the same rows, with those inserted that are still to come. -/
theorem Ready.apply_next {m : Mutation κ} (hw : w.Ready (m :: ms))
    (hset : w.settle = db.fill (m :: ms)) (hrefers : db.Refers)
    {x : Db κ × Bool × Option (Delta κ)} (hx : db.apply m includeDeltas (w.hint m) = .ok x) :
    ∃ w', w.applyMutation m includeDeltas = .ok w' ∧ w'.1.Ready ms ∧
      w'.1.settle = x.1.fill ms := by
  have hsame := hw.applyMutation_settle includeDeltas
  rw [hset, hrefers.applyFilled_fill, hx] at hsame
  cases hm : w.applyMutation m includeDeltas with
  | error e =>
    rw [hm] at hsame
    cases hsame
  | ok w' =>
    rw [hm] at hsame
    exact ⟨w', rfl, hw.applyMutation hm, (congrArg Prod.fst (Except.ok.inj hsame)).symm⟩

/-- What every mutation keeps with the hint of the batch holds after all of them. -/
theorem Ready.hints_induct {P : Db κ → Prop}
    (hstep : ∀ {w : Work κ} {m rest} {db : Db κ} {x}, m ∈ ms → w.Ready (m :: rest) →
      w.settle = db.fill (m :: rest) → P db → db.apply m includeDeltas (w.hint m) = .ok x → P x.1)
    {x : Db κ × ℕ × List (Delta κ)} (hw : w.Ready ms) (hset : w.settle = db.fill ms)
    (hrefers : db.Refers) (h : P db)
    (hx : db.applyAll includeDeltas (w.hints includeDeltas ms) = .ok x) : P x.1 := by
  induction ms generalizing w db x with
  | nil =>
    cases hx
    exact h
  | cons m ms ih =>
    obtain ⟨y, hy, hx⟩ := bind_ok.mp hx
    obtain ⟨z, hz, hx⟩ := bind_ok.mp hx
    cases hx
    obtain ⟨w', hm, hready, hset'⟩ := hw.apply_next hset hrefers hy
    simp only [hm] at hz
    show P z.1
    exact ih (fun hmem => hstep (mem_cons_of_mem m hmem)) hready hset' (hrefers.apply hy)
      (hstep mem_cons_self hw hset h hy) hz

end Work

/-- A batch does what its mutations do one by one, with the hints of its caches. -/
theorem Db.applyBatch_eq {db : Db κ} (hrefers : db.Refers) (hseq : db.Sequenced)
    (hnew : db.batches.find? batch.batchId = none) :
    db.applyBatch batch = (Work.prepare db batch >>= fun w =>
      ((db.insertBatch batch).applyAll batch.includeDeltas
        (w.hints batch.includeDeltas batch.mutations)).map fun x =>
          (x.1, ⟨false, x.2.1, x.2.2⟩)) := by
  unfold Db.applyBatch
  rw [hnew]
  have hprep : ∀ w, Work.prepare db batch = .ok w →
      (w.applyMutations batch.includeDeltas batch.mutations).map (fun x =>
        (Work.commitConnectionSequences x.1.flushDeferredMetadataRefresh x.1.cache, x.2)) =
      (db.insertBatch batch).applyAll batch.includeDeltas
        (w.hints batch.includeDeltas batch.mutations) := by
    intro w hw
    obtain ⟨hready, hset, -⟩ := Work.prepare_ok hseq hw
    have hins : (db.insertBatch batch).Refers := (SameRoutes.mk rfl rfl rfl rfl).refers hrefers
    have hrun := hready.applyMutations_settle batch.includeDeltas
    have hfill := hins.applyFilledAll_fill batch.includeDeltas
      (w.hints batch.includeDeltas batch.mutations)
    rw [Work.map_fst_hints, ← hset, hrun] at hfill
    rw [← hfill]
    cases hm : w.applyMutations batch.includeDeltas batch.mutations with
    | error e => rfl
    | ok x =>
      show ok (_, x.2) = ok _
      rw [(hready.applyMutations hm).commit]
  show (Work.prefillCurrentRouteRefs _ batch.mutations >>= fun filled =>
    _) = _
  cases hfilled : (Work.prefillRouteObjectCaches ⟨db.insertBatch batch, {}⟩
      batch.mutations).prefillCurrentRouteRefs batch.mutations with
  | error e =>
    unfold Work.prepare
    dsimp only
    rw [hfilled]
    rfl
  | ok filled =>
    have hw : Work.prepare db batch =
        .ok (filled.prepareDeferredMetadataRefresh batch.mutations) := by
      unfold Work.prepare
      dsimp only
      rw [hfilled]
      rfl
    rw [hw]
    show _ = Except.map _ _
    rw [← hprep _ hw]
    show (Work.applyMutations _ _ _ >>= _) = _
    cases Work.applyMutations batch.includeDeltas
      (filled.prepareDeferredMetadataRefresh batch.mutations) batch.mutations <;> rfl

theorem Db.applyBatch_induct {P : Db κ → Prop} {db : Db κ}
    (hstep : ∀ {w : Work κ} {m rest} {db : Db κ} {x}, m ∈ batch.mutations → w.Ready (m :: rest) →
      w.settle = db.fill (m :: rest) → P db →
      db.apply m batch.includeDeltas (w.hint m) = .ok x → P x.1) (hrefers : db.Refers)
    (hseq : db.Sequenced) (h : P db) (hins : P (db.insertBatch batch))
    {x : Db κ × BatchResult κ} (hx : db.applyBatch batch = .ok x) : P x.1 := by
  cases hnew : db.batches.find? batch.batchId with
  | some _ =>
    unfold Db.applyBatch at hx
    rw [hnew] at hx
    cases hx
    exact h
  | none =>
    rw [applyBatch_eq hrefers hseq hnew] at hx
    obtain ⟨w, hw, hx⟩ := bind_ok.mp hx
    obtain ⟨y, hy, rfl⟩ := map_eq_ok.mp hx
    obtain ⟨hready, hset, -⟩ := Work.prepare_ok hseq hw
    exact hready.hints_induct hstep hset ((SameRoutes.mk rfl rfl rfl rfl).refers hrefers)
      hins hy

end Bmp.Store
