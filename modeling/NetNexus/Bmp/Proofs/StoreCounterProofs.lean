import NetNexus.Bmp.Proofs.StoreInvariantProofs

/-!
# The counters tell the number of routes

The number that a query reads off the counters is the number of current routes that pass its
filters.
-/

namespace Bmp.Store

variable {κ : Type} [DecidableEq κ]

theorem Bucket.isActive_eq (b : Bucket κ) (s : ScopeRow κ) : b.isActive s = !b.isStale s := by
  rw [Bool.eq_iff_iff]
  unfold Bucket.isActive Bucket.isStale
  simp only [Bool.and_eq_true, Bool.not_eq_true', decide_eq_true_eq, Bool.or_eq_false_iff,
    decide_eq_false_iff_not, not_lt]
  tauto

namespace Db

/-- The effective state is the one that the query asks for. -/
def selectsState (query : RouteQuery κ) (s : ScopeRow κ) (b : Bucket κ) : Bool :=
  match query.routeState with
  | .all => true
  | .active => !b.isStale s
  | .stale => b.isStale s
  | .other => false

/-- The columns of a row in the partition tables, joined with its scope and source, pass the
filters. -/
def selectsBucket (db : Db κ) (query : RouteQuery κ) (b : Bucket κ) : Bool :=
  (db.scopes.find? b.scope).any fun s =>
    db.selectsScope query s && db.selectsConnection query b.connection && selectsState query s b

theorem aggregate_eq (query : RouteQuery κ) (s : ScopeRow κ) (counter : Bucket κ × ℤ) :
    aggregate query s counter = if selectsState query s counter.1 then counter.2 else 0 := by
  unfold aggregate selectsState
  cases query.routeState with
  | all => rfl
  | active => rw [Bucket.isActive_eq]
  | stale =>
    simp only [Bucket.isActive_eq]
    cases counter.1.isStale s <;> rfl
  | other => rfl

theorem queryRouteCountFromCounters_eq {db : Db κ} {query : RouteQuery κ}
    (h : query.filtersIdentity = false) :
    db.queryRouteCountFromCounters query = some (db.counts.total (db.selectsBucket query)) := by
  -- what a counter adds for a scope, if it is the one of the counter
  let term := fun s (counter : Bucket κ × ℤ) =>
    if db.selectsScope query s && db.selectsConnection query counter.1.connection &&
      selectsState query s counter.1 then counter.2 else 0
  have hscope : ∀ s, (if db.selectsScope query s then
      ((db.counts.rows.filter fun counter => counter.1.scope = s.id &&
        db.selectsConnection query counter.1.connection).map (aggregate query s)).sum else 0) =
        (db.counts.rows.map fun counter =>
          if s.id = counter.1.scope then term s counter else 0).sum := by
    intro s
    rw [Table.sum_map_filter]
    cases hs : db.selectsScope query s with
    | false => simp [term, hs]
    | true =>
      refine congrArg List.sum (List.map_congr_left fun counter _ => ?_)
      rw [aggregate_eq]
      simp only [term, hs, Bool.and_eq_true, decide_eq_true_eq]
      by_cases hid : counter.1.scope = s.id
      · by_cases hconn : db.selectsConnection query counter.1.connection = true
        · simp [hid, hconn]
        · simp [hconn]
      · rw [if_neg fun he => hid he.1, if_neg fun he => hid he.symm]
  have hcoun : ∀ counter : Bucket κ × ℤ,
      (db.scopes.rows.map fun s => if s.id = counter.1.scope then term s counter else 0).sum =
        if db.selectsBucket query counter.1 then counter.2 else 0 := by
    intro counter
    rw [Table.sum_map_ite_key]
    unfold selectsBucket
    cases db.scopes.find? counter.1.scope <;> rfl
  unfold queryRouteCountFromCounters
  rw [h, if_neg Bool.false_ne_true, List.flatMap_def, List.sum_flatten, List.map_map,
    Table.sum_map_filter, Tally.total_eq_sum]
  simp [Function.comp_apply, hscope, Table.sum_map_sum_comm, hcoun]

/-- The rows of the partition tables that pass the filters. -/
def countRoutes (db : Db κ) (query : RouteQuery κ) : ℕ :=
  db.routes.rows.countP fun r => db.selectsBucket query r.bucket

theorem Counted.queryRouteCountFromCounters {db : Db κ} (h : db.Counted) (query : RouteQuery κ) :
    db.queryRouteCountFromCounters query =
      if query.filtersIdentity then none else some (db.countRoutes query : ℤ) := by
  cases hf : query.filtersIdentity with
  | true =>
    unfold Db.queryRouteCountFromCounters
    rw [hf]
    rfl
  | false =>
    rw [queryRouteCountFromCounters_eq hf, Tally.Exact.total_eq h, List.countP_map]
    rfl

/-- Over every sequence of calls, the counters are the numbers of current routes by scope,
connection, epoch and state, and give the number of routes that pass the filters of a query. -/
theorem counters_exact (le : κ → κ → Bool) (calls : List (Call κ)) (query : RouteQuery κ) :
    let db := (Db.empty : Db κ).run le calls
    (∀ b, db.counts.find? b =
      if db.routes.rows.countP (fun r => r.bucket = b) = 0 then none
      else some (b, ((db.routes.rows.countP fun r => r.bucket = b : ℕ) : ℤ))) ∧
    (∀ counter ∈ db.counts.rows, 0 < counter.2) ∧
    db.queryRouteCountFromCounters query =
      if query.filtersIdentity then none else some (db.countRoutes query : ℤ) := by
  intro db
  have hcnt : db.Counted := (consistent_empty.run le calls).counted
  refine ⟨fun b => ?_, fun counter hmem => (Tally.Exact.pos hcnt hmem).1,
    hcnt.queryRouteCountFromCounters query⟩
  have hcount : (db.routes.rows.map CurrentRoute.bucket).count b =
      db.routes.rows.countP fun r => r.bucket = b := by
    rw [List.count, List.countP_map]
    rfl
  rw [← hcount]
  exact hcnt b

end Db

end Bmp.Store
