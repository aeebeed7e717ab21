import NetNexus.Rpki.Cache
import NetNexus.Rpki.Proofs.DeltaProofs

/-!
# A serial identifies the dataset

Beside a run of the cache goes the list of the tables it has had, one for each serial since the
start. While an import is committed but not recorded the database is one entry ahead of the
worker: a snapshot then shows the last entry, a delta leads to the one before. Either way a
response describes the entry of its serial.
-/

namespace Rpki

open List Replay Worker

section

open scoped UInt32.CommRing

/-! ## What a version carries -/

variable (version : ProtocolVersion)

theorem Dataset.carried_apply (d : Dataset) (operation : Operation) :
    (d.apply operation).carried version =
      (d.carried version).applyAll ([operation].filter (Operation.carried version)) := by
  rcases operation with ⟨_ | _, _⟩ | ⟨_ | _, _⟩ | ⟨_ | _, _⟩ | ⟨_, _⟩ <;> cases version <;> rfl

theorem Dataset.carried_applyAll (d : Dataset)
    (operations : List Operation) : (d.applyAll operations).carried version =
      (d.carried version).applyAll (operations.filter (Operation.carried version)) := by
  induction operations generalizing d with
  | nil => rfl
  | cons operation _ ih =>
    have hsplit : ∀ (d : Dataset) xs ys, d.applyAll (xs ++ ys) = (d.applyAll xs).applyAll ys :=
      fun _ _ _ => foldl_append
    rw [← singleton_append, filter_append, hsplit, hsplit, ih]
    exact congrArg (applyAll · _) (carried_apply version d operation)

/-! ## The worker beside the tables it has had -/

variable {first : UInt32} {older : List Tables} {w w' : Worker}

/-- The worker has had the tables `older` under the serials from `first` on, and its history leads
from each of them to the present ones. -/
structure Tracked (first : UInt32) (older : List Tables) (w : Worker) : Prop where
  inv : w.Inv
  serial : w.cacheSerial = first + (older.length : UInt32)
  length_le : w.history.entries.length ≤ older.length
  recalls : ∀ j t, (older ++ [w.tables])[j]? = some t →
    Recalls Tables.applyEntry (some t) (older.length - j) w.history.entries (some w.tables)

theorem tracked_start (store : Store) (routerKeys : RouterKeyMap) :
    Tracked store.cacheSerial [] (Worker.start store routerKeys) := by
  refine ⟨inv_start .., ?_, le_rfl, fun j t hj => ?_⟩
  · rw [length_nil, Nat.cast_zero, add_zero]
    rfl
  · cases j with
    | zero =>
      cases hj
      exact .zero _ _ _
    | succ j => simp at hj

/-- A request leaves the tables as they are or adds new ones. -/
theorem Tracked.moved (h : Tracked first older w) (hm : Worker.Moved w w') :
    (w'.cacheSerial = w.cacheSerial ∧ w'.tables = w.tables ∧ Tracked first older w') ∨
      (w'.cacheSerial = w.cacheSerial + 1 ∧ Tracked first (older ++ [w.tables]) w') := by
  obtain ⟨hinv, hser, hlen, hreca⟩ := h
  rcases hm.recalls with ⟨hsame, hdata, hhist⟩ | ⟨hnext, _, hreca'⟩
  · refine .inl ⟨hsame, hdata, hm.inv hinv, hsame.trans hser, ?_, ?_⟩
    · rw [hhist]
      exact hlen
    · rw [hhist, hdata]
      exact hreca
  · refine .inr ⟨hnext, hm.inv hinv, ?_, ?_, fun j t hj => ?_⟩
    · rw [hnext, hser, length_append, length_singleton, Nat.cast_succ, add_assoc]
    · rw [length_append, length_singleton]
      omega
    · by_cases hj' : j < (older ++ [w.tables]).length
      · rw [getElem?_append_left hj'] at hj
        have hr := hreca' _ _ (hreca j t hj)
        rw [length_append, length_singleton] at hj' ⊢
        rwa [show older.length + 1 - j = older.length - j + 1 by omega]
      · rw [getElem?_append_right (Nat.le_of_not_lt hj')] at hj
        obtain ⟨_, ht⟩ := List.getElem?_eq_some_iff.mp hj
        have hzero : (older ++ [w.tables]).length - j = 0 := by omega
        have ht' : t = w'.tables := by
          rw [← ht]
          simp
        rw [hzero, ht']
        exact .zero _ _ _

/-! ## The cache -/

/-- The response tells what the cache held under its serial, or how it got there. -/
def Response.Described (first : UInt32) (past : List Tables) (r : Response) : Prop :=
  match r.content with
  | .snapshot roas routerKeys aspas =>
    ∃ (k : ℕ) (t : Tables), past[k]? = some t ∧
      t.dataset = ⟨{x | x ∈ roas}, {x | x ∈ aspas}, {x | x ∈ routerKeys}⟩ ∧
      r.serial = first + (k : UInt32)
  | .delta since operations =>
    ∃ (j k : ℕ) (t t' : Tables), past[j]? = some t ∧ past[k]? = some t' ∧
      t.applyAll operations = some t' ∧
      since = first + (j : UInt32) ∧ r.serial = first + (k : UInt32)

variable {r : Response}

theorem Response.Described.mono {past past' : List Tables} (h : r.Described first past)
    (hp : past <+: past') : r.Described first past' := by
  obtain ⟨newer, rfl⟩ := hp
  have hold : ∀ (k : ℕ) t, past[k]? = some t → (past ++ newer)[k]? = some t := by
    intro k t hk
    obtain ⟨hlt, -⟩ := List.getElem?_eq_some_iff.mp hk
    rw [getElem?_append_left hlt, hk]
  obtain ⟨_, _, _ | _⟩ := r
  · obtain ⟨k, t, hk, hdata, hser⟩ := h
    exact ⟨k, t, hold _ _ hk, hdata, hser⟩
  · obtain ⟨j, k, t, t', hj, hk, happly, hsince, hser⟩ := h
    exact ⟨j, k, t, t', hold _ _ hj, hold _ _ hk, happly, hsince, hser⟩

namespace Cache

variable {estimate : List Operation → ℕ} {c : Cache} {past : List Tables}

/-- The states of the cache beside the tables it has had. -/
inductive Good (first : UInt32) : Cache → List Tables → Prop where
  | idle {w : Worker} {older : List Tables} (tracked : Tracked first older w) :
      Good first ⟨w, none⟩ (older ++ [w.tables])
  | unchanged {w : Worker} {older : List Tables} {result : Store.BatchChanged}
      (tracked : Tracked first older w) (zero : result.changed = 0) :
      Good first ⟨w, some result⟩ (older ++ [w.tables])
  | committed {w : Worker} {older : List Tables} {result : Store.BatchChanged} {store : Store}
      (tracked : Tracked first older w) (outcome : Store.BatchOutcome w.store (result, store))
      (pos : 0 < result.changed) :
      Good first ⟨{ w with store }, some result⟩
        (older ++ [w.tables] ++ [{ w with store }.tables])

theorem good_start (store : Store) (routerKeys : RouterKeyMap) :
    Good store.cacheSerial (start store routerKeys) [(Worker.start store routerKeys).tables] :=
  .idle (tracked_start store routerKeys)

/-! ### Queries -/

/-- A delta leads from tables the worker has had to the present ones. -/
theorem tracked_delta (h : Tracked first older w) {since : UInt32} {operations : List Operation}
    (hdelta : w.getDeltaOperationsSince since = some operations) :
    ∃ (j : ℕ) (t : Tables), (older ++ [w.tables])[j]? = some t ∧
      t.applyAll operations = some w.tables ∧ since = first + (j : UInt32) := by
  obtain ⟨_, back, hents, hsince, rfl⟩ :=
    getDeltaOperationsSince_eq_some h.inv.numbered hdelta
  have hle : back.length ≤ older.length := by
    have hlen := h.length_le
    rw [hents, length_append] at hlen
    omega
  obtain ⟨j, hj⟩ : ∃ j, older.length = j + back.length := ⟨older.length - back.length, by omega⟩
  have hlt : j < (older ++ [w.tables]).length := by
    rw [length_append, length_singleton]
    omega
  refine ⟨j, _, getElem?_eq_getElem hlt, ?_, ?_⟩
  · have hr := h.recalls j _ (getElem?_eq_getElem hlt)
    rw [show older.length - j = back.length by omega, hents] at hr
    rw [← Tables.foldl_applyEntry]
    exact hr.replay
  · rw [h.serial, hj, Nat.cast_add, ← add_assoc] at hsince
    exact add_right_cancel hsince

theorem Good.snapshot_described (h : Good first c past) (version : ProtocolVersion) :
    (c.createDataSnapshot version).Described first past := by
  cases h with
  | @idle w older ht | @unchanged w older result ht hzero =>
    refine ⟨older.length, _, getElem?_concat_length .., rfl, ?_⟩
    exact ht.inv.sync.trans ht.serial
  | @committed w older result store ht hout hpos =>
    refine ⟨(older ++ [w.tables]).length, _, getElem?_concat_length .., rfl, ?_⟩
    rcases hout with ⟨-, -, hser⟩ | ⟨hzero, -⟩
    · show store.cacheSerial = _
      rw [show store.cacheSerial = _ from hser, ht.inv.sync, ht.serial, length_append,
        length_singleton, Nat.cast_succ, add_assoc]
    · exact absurd hzero (by dsimp only; omega)

theorem Good.delta_described (h : Good first c past) {version : ProtocolVersion} {serial : UInt32}
    (hr : c.handleSerialQuery version serial = some r) : r.Described first past := by
  obtain ⟨_, hdelta, rfl⟩ := Option.map_eq_some_iff.mp hr
  cases h with
  | @idle w older ht | @unchanged w older result ht hzero =>
    obtain ⟨j, t, hj, happly, hsince⟩ := tracked_delta ht hdelta
    exact ⟨j, older.length, t, _, hj, getElem?_concat_length .., happly, hsince, ht.serial⟩
  | @committed w older result store ht hout hpos =>
    -- the worker's serial and history are still those from before the commit
    obtain ⟨j, t, hj, happly, hsince⟩ := tracked_delta ht hdelta
    refine ⟨j, older.length, t, w.tables, ?_, ?_, happly, hsince, ht.serial⟩
    · obtain ⟨hlt, -⟩ := List.getElem?_eq_some_iff.mp hj
      rw [getElem?_append_left hlt, hj]
    · rw [getElem?_append_left (by simp)]
      exact getElem?_concat_length ..

/-! ### Steps -/

theorem Good.response_described (h : Good first c past) {event : Event}
    (hr : (c.step estimate event).2 = some r) : r.Described first past := by
  cases event with
  | resetQuery version =>
    cases hr
    exact h.snapshot_described version
  | serialQuery _ _ => exact h.delta_described hr
  | request _ | commitImport _ | _ =>
    unfold step at hr
    dsimp only at hr
    split at hr <;> cases hr

/-- The tables after a step: those from before, and new ones if the serial of the database has
changed. -/
def Extends (c c' : Cache) (past past' : List Tables) : Prop :=
  past <+: past' ∧
    past'.length = past.length +
      if c'.worker.store.cacheSerial = c.worker.store.cacheSerial then 0 else 1

theorem Extends.of_serial_eq {c' : Cache}
    (h : c'.worker.store.cacheSerial = c.worker.store.cacheSerial) (past : List Tables) :
    Extends c c' past past := by
  refine ⟨prefix_refl _, ?_⟩
  rw [if_pos h, Nat.add_zero]

theorem Extends.of_serial_ne {c' : Cache} {t : Tables}
    (h : c'.worker.store.cacheSerial ≠ c.worker.store.cacheSerial) (past : List Tables) :
    Extends c c' past (past ++ [t]) := by
  refine ⟨prefix_append .., ?_⟩
  rw [if_neg h, length_append, length_singleton]

theorem Extends.refl (c : Cache) (past : List Tables) : Extends c c past past := .of_serial_eq rfl _

theorem step_request (h : Tracked first older w) (request : Request) :
    ∃ past', Good first ⟨w.step estimate request, none⟩ past' ∧
      Extends ⟨w, none⟩ ⟨w.step estimate request, none⟩ (older ++ [w.tables]) past' := by
  rcases h.moved (step_moved estimate request h.inv.sync) with
    ⟨hser, hdata, ht⟩ | ⟨hser, ht⟩
  · have hsame : (w.step estimate request).store.cacheSerial = w.store.cacheSerial := by
      rw [ht.inv.sync, hser, h.inv.sync]
    refine ⟨_, .idle ht, ?_⟩
    rw [hdata]
    exact .of_serial_eq hsame _
  · have hne : (w.step estimate request).store.cacheSerial ≠ w.store.cacheSerial := by
      rw [ht.inv.sync, hser, h.inv.sync]
      exact succ_ne_self _
    exact ⟨_, .idle ht, .of_serial_ne hne _⟩

variable {result : Store.BatchChanged}

theorem step_commit (h : Tracked first older w) {store : Store}
    (hout : Store.BatchOutcome w.store (result, store)) :
    ∃ past', Good first ⟨{ w with store }, some result⟩ past' ∧
      Extends ⟨w, none⟩ ⟨{ w with store }, some result⟩ (older ++ [w.tables]) past' := by
  have hout' := hout
  rcases hout with ⟨hpos, -, hser⟩ | ⟨hzero, hstore⟩
  · have hne : store.cacheSerial ≠ w.store.cacheSerial := by
      rw [show store.cacheSerial = _ from hser]
      exact succ_ne_self _
    exact ⟨_, .committed h hout' hpos, .of_serial_ne hne _⟩
  · obtain rfl : store = w.store := hstore
    exact ⟨_, .unchanged h hzero, .of_serial_eq rfl _⟩

variable (estimate : List Operation → ℕ)

/-- Recording a committed import changes nothing that a response shows. -/
theorem step_record (h : Tracked first older w) {store : Store}
    (hout : Store.BatchOutcome w.store (result, store)) (hpos : 0 < result.changed) :
    Good first ⟨w.recordBulk estimate (result, store), none⟩
        (older ++ [w.tables] ++ [{ w with store }.tables]) ∧
      (w.recordBulk estimate (result, store)).store.cacheSerial = store.cacheSerial := by
  have hrec : w.recordBulk estimate (result, store) =
      { w with store }.recordSerialDelta estimate [] (some result.cacheSerial) true := if_pos hpos
  have hdata : (w.recordBulk estimate (result, store)).tables = { w with store }.tables := by
    rw [hrec]
    exact tables_recordSerialDelta ..
  have hmoved : Worker.Moved w (w.recordBulk estimate (result, store)) :=
    recordBulk_moved h.inv.sync hout
  rcases hout with ⟨-, hprov, hser⟩ | ⟨hzero, -⟩
  · rw [h.inv.sync] at hprov hser
    have hpend : Worker.Pending { w with store } (some result.cacheSerial) :=
      .inl ⟨congrArg some hprov, hser⟩
    obtain ⟨hcache, hstore⟩ := recordSerialDelta_serial hpend estimate [] true
    rw [← hrec] at hcache hstore
    refine ⟨?_, hstore.trans (hser).symm⟩
    rcases h.moved hmoved with ⟨hsame, -, -⟩ | ⟨-, ht⟩
    · exact absurd (hcache.symm.trans hsame) (succ_ne_self _)
    · rw [← hdata]
      exact .idle ht
  · exact absurd hzero (by dsimp only; omega)

theorem Good.step (h : Good first c past) (event : Event) :
    ∃ past', Good first (c.step estimate event).1 past' ∧
      Extends c (c.step estimate event).1 past past' := by
  cases event with
  | resetQuery _ | serialQuery _ _ => exact ⟨past, h, .refl ..⟩
  | request request =>
    cases h with
    | idle ht => exact step_request ht request
    | unchanged ht hzero => exact ⟨_, .unchanged ht hzero, .refl ..⟩
    | committed ht hout hpos => exact ⟨_, .committed ht hout hpos, .refl ..⟩
  | commitImport task =>
    cases h with
    | @idle w older ht =>
      cases hcmt : task.commit w.store with
      | error e =>
        simp only [Cache.step, hcmt]
        exact ⟨_, .idle ht, .refl ..⟩
      | ok _ =>
        simp only [Cache.step, hcmt]
        exact step_commit ht (commit_outcome hcmt)
    | unchanged ht hzero => exact ⟨_, .unchanged ht hzero, .refl ..⟩
    | committed ht hout hpos => exact ⟨_, .committed ht hout hpos, .refl ..⟩
  | recordImport =>
    cases h with
    | idle ht => exact ⟨_, .idle ht, .refl ..⟩
    | @unchanged w older result ht hzero =>
      have hsame : w.recordBulk estimate (result, w.store) = w :=
        if_neg (by dsimp only; omega)
      simp only [Cache.step, hsame]
      exact ⟨_, .idle ht, .refl ..⟩
    | @committed w older result store ht hout hpos =>
      obtain ⟨hgood, hser⟩ := step_record estimate ht hout hpos
      exact ⟨_, hgood, .of_serial_eq hser _⟩

/-! ### Runs -/

/-- All responses of a run describe one list of tables, with one entry for each change of the
serial. -/
theorem Good.responses (h : Good first c past) (events : List Event) :
    ∃ past', past <+: past' ∧ past'.length = past.length + c.changes estimate events ∧
      ∀ r ∈ c.responses estimate events, r.Described first past' := by
  induction events generalizing c past with
  | nil =>
    refine ⟨past, prefix_refl _, rfl, ?_⟩
    intro r hr
    cases hr
  | cons event _ ih =>
    obtain ⟨_, hgood, hpre, hlen⟩ := h.step estimate event
    obtain ⟨past', hpre', hlen', hall⟩ := ih hgood
    refine ⟨past', hpre.trans hpre', ?_, ?_⟩
    · rw [hlen', hlen, Cache.changes, Nat.add_assoc]
    · intro r hr
      rw [Cache.responses, mem_append, Option.mem_toList] at hr
      rcases hr with hr | hr
      · exact (h.response_described hr).mono (hpre.trans hpre')
      · exact hall r hr

end Cache

/-- What a response leaves is what the cache held under its serial, as far as its version carries
it. -/
theorem Leaves.eq_carried {responses : List Response} {past : List Tables}
    (hall : ∀ r ∈ responses, r.Described first past) (hlen : past.length ≤ 2 ^ 32) {d : Dataset}
    (h : Leaves responses r d) (hr : r ∈ responses) :
    ∃ (k : ℕ) (t : Tables), past[k]? = some t ∧ r.serial = first + (k : UInt32) ∧
      d = t.dataset.carried r.version := by
  induction h with
  | snapshot _ _ _ _ _ =>
    obtain ⟨k, t, hk, hdata, hser⟩ := hall _ hr
    exact ⟨k, t, hk, hser, by rw [hdata]⟩
  | @delta version serial operations base d hmem hsame _ ih =>
    obtain ⟨j, k, t, t', hj, hk, happly, hsince, hser⟩ := hall _ hr
    obtain ⟨j', t₀, hj', hbase, rfl⟩ := ih hmem
    obtain ⟨_, -⟩ := List.getElem?_eq_some_iff.mp hj
    obtain ⟨_, -⟩ := List.getElem?_eq_some_iff.mp hj'
    have hjj : j' = j :=
      count_eq_of_serial_eq (by omega) (by omega) (hbase.symm.trans hsince)
    subst hjj
    obtain rfl : t₀ = t := Option.some_inj.mp (hj'.symm.trans hj)
    refine ⟨k, t', hk, hser, ?_⟩
    rw [← Tables.dataset_applyAll happly, Dataset.carried_applyAll, hsame]

/-- Without a wrap of the serial, two responses of one version that end with the same serial leave
the same ROAs, ASPAs and router keys. -/
theorem Cache.serial_identifies_dataset (estimate : List Operation → ℕ) (store : Store)
    (routerKeys : RouterKeyMap) (events : List Event)
    (hwrap : store.cacheSerial.toNat + (Cache.start store routerKeys).changes estimate events <
      2 ^ 32)
    {r₁ r₂ : Response} {d₁ d₂ : Dataset}
    (hr₁ : r₁ ∈ (Cache.start store routerKeys).responses estimate events)
    (hr₂ : r₂ ∈ (Cache.start store routerKeys).responses estimate events)
    (hversion : r₁.version = r₂.version) (hserial : r₁.serial = r₂.serial)
    (h₁ : Leaves ((Cache.start store routerKeys).responses estimate events) r₁ d₁)
    (h₂ : Leaves ((Cache.start store routerKeys).responses estimate events) r₂ d₂) :
    d₁ = d₂ := by
  obtain ⟨past, -, hlen, hall⟩ := (Cache.good_start store routerKeys).responses estimate events
  have hle : past.length ≤ 2 ^ 32 := by
    rw [hlen, length_singleton]
    omega
  obtain ⟨k₁, _, hk₁, hs₁, rfl⟩ := h₁.eq_carried hall hle hr₁
  obtain ⟨k₂, _, hk₂, hs₂, rfl⟩ := h₂.eq_carried hall hle hr₂
  obtain ⟨_, -⟩ := List.getElem?_eq_some_iff.mp hk₁
  obtain ⟨_, -⟩ := List.getElem?_eq_some_iff.mp hk₂
  have hk : k₁ = k₂ := by
    have hs : store.cacheSerial + k₁ = store.cacheSerial + k₂ := by
      rw [← hs₁, ← hs₂, hserial]
    exact count_eq_of_serial_eq (by omega) (by omega) hs
  subst hk
  rw [hversion, Option.some_inj.mp (hk₁.symm.trans hk₂)]

end

/-! ## A run

An import is committed, a client takes a snapshot before it is recorded, and a router key is
added. -/

def sampleRoa : Roa := ⟨.ipv4, "192.0.2.0", 24, 64496, 24⟩

def sampleRouterKey : RouterKey := ⟨"00", "64496", "01"⟩

def sampleResponses : List Response :=
  (Cache.start ⟨.empty, .empty, 0, 0, 0, Roa.length_empty, Table.length_empty⟩ .empty).responses
    List.length
    [.commitImport (.roaJson (.ok [sampleRoa]) none), .resetQuery .v1, .recordImport,
      .request (.addRouterKey sampleRouterKey), .serialQuery .v1 1, .resetQuery .v1,
        .resetQuery .v0]

theorem sampleResponses_eq : sampleResponses = [⟨.v1, 1, .snapshot [sampleRoa] [] []⟩,
    ⟨.v1, 2, .delta 1 [.routerKey .announce sampleRouterKey]⟩,
    ⟨.v1, 2, .snapshot [sampleRoa] [sampleRouterKey] []⟩,
    ⟨.v0, 2, .snapshot [sampleRoa] [sampleRouterKey] []⟩] := rfl

/-- The snapshot from before the record, brought up to date by a delta, is the later snapshot. -/
theorem Cache.serial_identifies_dataset_import :
    (Dataset.carried .v1 ⟨{x | x ∈ [sampleRoa]}, {x | x ∈ []}, {x | x ∈ []}⟩).applyAll
        [.routerKey .announce sampleRouterKey] =
      .carried .v1 ⟨{x | x ∈ [sampleRoa]}, {x | x ∈ []}, {x | x ∈ [sampleRouterKey]}⟩ := by
  let base : Response := ⟨.v1, 1, .snapshot [sampleRoa] [] []⟩
  let r₁ : Response := ⟨.v1, 2, .delta 1 [.routerKey .announce sampleRouterKey]⟩
  let r₂ : Response := ⟨.v1, 2, .snapshot [sampleRoa] [sampleRouterKey] []⟩
  have hmem : base ∈ sampleResponses ∧ r₁ ∈ sampleResponses ∧ r₂ ∈ sampleResponses := by
    simp [sampleResponses_eq, base, r₁, r₂]
  obtain ⟨hbase, hr₁, hr₂⟩ := hmem
  have h₁ : Leaves sampleResponses r₁ _ := .delta .v1 2 _ hbase rfl (.snapshot ..)
  have h₂ : Leaves sampleResponses r₂ _ := .snapshot ..
  exact Cache.serial_identifies_dataset List.length _ _ _ (by decide) hr₁ hr₂ rfl rfl h₁ h₂

/-- Version 0 carries no router keys, so a serial alone does not tell what a client is left with. -/
theorem Cache.serial_not_across_versions :
    ∃ (estimate : List Operation → ℕ) (store : Store) (routerKeys : RouterKeyMap)
      (events : List Event) (r₁ r₂ : Response) (d₁ d₂ : Dataset),
      store.cacheSerial.toNat + (Cache.start store routerKeys).changes estimate events < 2 ^ 32 ∧
      r₁ ∈ (Cache.start store routerKeys).responses estimate events ∧
      r₂ ∈ (Cache.start store routerKeys).responses estimate events ∧
      r₁.serial = r₂.serial ∧
      Leaves ((Cache.start store routerKeys).responses estimate events) r₁ d₁ ∧
      Leaves ((Cache.start store routerKeys).responses estimate events) r₂ d₂ ∧ d₁ ≠ d₂ := by
  let r₁ : Response := ⟨.v0, 2, .snapshot [sampleRoa] [sampleRouterKey] []⟩
  let r₂ : Response := ⟨.v1, 2, .snapshot [sampleRoa] [sampleRouterKey] []⟩
  have hmem : r₁ ∈ sampleResponses ∧ r₂ ∈ sampleResponses := by
    simp [sampleResponses_eq, r₁, r₂]
  have h₁ : Leaves sampleResponses r₁ _ := .snapshot ..
  have h₂ : Leaves sampleResponses r₂ _ := .snapshot ..
  refine ⟨List.length, _, _, _, r₁, r₂, _, _, by decide, hmem.1, hmem.2, rfl, h₁, h₂, ?_⟩
  intro heq
  have hkeys : (∅) = {x | x ∈ [sampleRouterKey]} := congrArg Dataset.routerKeys heq
  have hnone : sampleRouterKey ∈ (∅ : Set RouterKey) := by
    rw [hkeys]
    exact mem_singleton_self _
  exact hnone

end Rpki
