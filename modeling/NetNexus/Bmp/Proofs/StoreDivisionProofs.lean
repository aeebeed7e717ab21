import NetNexus.Bmp.Proofs.StoreRepeatProofs

/-!
# Divisions into batches

A sequence of mutations comes to the same however it is divided into batches, if the batches are
calm. A batch remembers the scopes that it has written, also if the write was rejected, and leaves
out the next write with the same signature.
-/

namespace Bmp.Store

open Control List

variable {κ : Type} [DecidableEq κ]

namespace Db

/-- The database without its ledgers: the batches applied, and what is left to the collector. -/
def content (db : Db κ) : Db κ := { db with batches := .empty, gcCandidates := .empty }

/-- A result with the content of the database. -/
def strip {α : Type} (x : Except (Failure κ) (Db κ × α)) : Except (Failure κ) (Db κ × α) :=
  x.map fun x => (x.1.content, x.2)

variable {db : Db κ} {m : Mutation κ} {includeDeltas : Bool}

theorem applyEvent_content (db : Db κ) (m : Mutation κ) (partition : Option RoutePartition)
    (includeDeltas : Bool) : strip (db.content.applyEvent m partition includeDeltas) =
      strip (db.applyEvent m partition includeDeltas) := by
  have hrts : db.content.routes = db.routes := rfl
  have howns : db.content.ownsScope = db.ownsScope := rfl
  have hvalid : db.content.validateInsert = db.validateInsert := rfl
  have hids : db.content.identities = db.identities := rfl
  unfold applyEvent announce announceRoute announceNothing upsertRoute withdraw withdrawRoute
  simp only [hrts, howns, hvalid, hids]
  repeat' first | rfl | split

theorem resolveScope_content {partition : Option RoutePartition} {skip : Bool}
    (h : skip = true → ∀ scope p, m.scope = some scope → partition = some p →
      db.upsertScope (m.scopeParams scope p) = db) :
    db.content.resolveScope m partition false = (db.resolveScope m partition skip).map content := by
  unfold resolveScope
  split
  · rename_i scope p hs
    have hwr : (if skip then db else db.upsertScope (m.scopeParams scope p)) =
        db.upsertScope (m.scopeParams scope p) := by
      split
      · exact (h ‹_› scope p hs rfl).symm
      · rfl
    rw [hwr]
    dsimp only
    show (if (db.scopes.find? scope.id).any _ then _ else
      if ((db.upsertScope _).scopes.find? scope.id).isNone then _ else _) = _
    split
    · rfl
    · split <;> rfl
  · rfl

/-- The ledgers and a scope write that changes nothing make no difference to a mutation. -/
theorem apply_content {hint : Hint κ} (h : hint.skipScope = true → ∀ p, m.write? = some p →
      ((db.insertObjects m).resolveContext m).upsertScope p =
        (db.insertObjects m).resolveContext m) :
    strip (db.content.apply m includeDeltas {}) = strip (db.apply m includeDeltas hint) := by
  have hobjs : db.content.insertObjects m = (db.insertObjects m).content := by
    unfold insertObjects
    cases m.upserted <;> rfl
  have hpost : ∀ x : Except (Failure κ) (Db κ × Option (Delta κ)),
      strip (x >>= fun y => .ok (y.1, true, y.2)) = strip x >>= fun y => .ok (y.1, true, y.2) := by
    intro x
    cases x <;> rfl
  unfold apply applyFilled
  rw [hobjs]
  cases hp : m.partition with
  | error e => rfl
  | ok partition =>
    show strip (if (db.insertObjects m).isReplay m then _ else _) =
      strip (if (db.insertObjects m).isReplay m then _ else _)
    split
    · rfl
    · have hctx : (db.insertObjects m).content.resolveContext m =
          ((db.insertObjects m).resolveContext m).content := by
        unfold resolveContext
        cases m.sequence <;> rfl
      rw [hctx, resolveScope_content fun hskip scope p hs hpp =>
        h hskip _ (Mutation.write?_eq hs (hp.trans (congrArg _ hpp)))]
      cases ((db.insertObjects m).resolveContext m).resolveScope m partition hint.skipScope with
      | error e => rfl
      | ok written =>
        have hevent := written.applyEvent_content m partition includeDeltas
        exact (hpost _).trans ((congrArg (· >>= _) hevent).trans (hpost _).symm)

/-- The mutations one by one after the given deltas, each with its scope written. -/
def applyEach (includeDeltas : Bool) (start : Db κ × List (Delta κ)) (ms : List (Mutation κ)) :
    Except (Failure κ) (Db κ × List (Delta κ)) :=
  ms.foldlM (fun state m => do
    let x ← state.1.apply m includeDeltas {}
    return (x.1, state.2 ++ x.2.2.toList)) start

theorem applyEach_append (includeDeltas : Bool) (start : Db κ × List (Delta κ))
    (ms ms' : List (Mutation κ)) : applyEach includeDeltas start (ms ++ ms') =
      applyEach includeDeltas start ms >>= fun state => applyEach includeDeltas state ms' :=
  foldlM_append

/-- Batches one after the other, with the deltas of all of them. -/
def applyBatches (start : Db κ × List (Delta κ)) (batches : List (Batch κ)) :
    Except (Failure κ) (Db κ × List (Delta κ)) :=
  batches.foldlM (fun state batch => do
    let x ← state.1.applyBatch batch
    return (x.1, state.2 ++ x.2.deltas)) start

/-- What is left when all batches were applied. -/
def outcome (x : Except (Failure κ) (Db κ × List (Delta κ))) : Option (Db κ × List (Delta κ)) :=
  (strip x).toOption

end Db

namespace Work

variable {w : Work κ} {m : Mutation κ} {ms : List (Mutation κ)} {includeDeltas : Bool}

theorem scopes_announce {scope : Scope κ} {p : RoutePartition} {route : Route κ}
    {x : Work κ × Option (Delta κ)} (h : w.announce m scope p route includeDeltas = .ok x) :
    x.1.cache.scopes = w.cache.scopes := by
  unfold announce at h
  dsimp only at h
  split at h
  · cases h
    unfold refresh
    split <;> rfl
  · obtain ⟨_, -, h⟩ := bind_ok.mp h
    cases h
    split
    · unfold rememberRefs
      split <;> rfl
    · rfl

/-- Only a scope write changes what a batch remembers of scopes. -/
theorem scopes_applyEvent {partition : Option RoutePartition} {x : Work κ × Option (Delta κ)}
    (h : w.applyEvent m partition includeDeltas = .ok x) :
    x.1.cache.scopes = w.cache.scopes := by
  have hobjs : ∀ route, (w.resolveObjects route).cache.scopes = w.cache.scopes := by
    intro route
    unfold resolveObjects resolvePayload resolveIdentity resolveAttrPk
    repeat' first | rfl | split
  unfold applyEvent at h
  split at h
  · split at h
    · exact (scopes_announce h).trans (hobjs _)
    · obtain ⟨_, -, h⟩ := bind_ok.mp h
      cases h
      rfl
  · split at h
    · cases h
      show (w.findIdentity _).1.cache.scopes = _
      unfold findIdentity
      repeat' first | rfl | split
    · cases h
      rfl
  all_goals cases h <;> rfl

theorem Ready.scopes_applyMutation (hw : w.Ready (m :: ms)) {x : Work κ × Bool × Option (Delta κ)}
    (h : w.applyMutation m includeDeltas = .ok x) :
    x.1.cache.scopes = w.settle.remembered m w.cache.scopes := by
  unfold Db.remembered
  obtain ⟨partition, hp, ⟨hrep, rfl⟩ | ⟨hrep, hm, written, hscope, hevent, -⟩⟩ :=
    hw.applyMutation_ok h
  · obtain ⟨_, hprobe, -⟩ := w.probe_eq m
    rw [if_pos hrep, hprobe]
  · rw [hrep, scopes_applyEvent hevent]
    obtain ⟨-, hform⟩ := (hw.resolved hm).resolveScope (w.find?_resolved_isSome m) hscope
    cases hs : m.scope with
    | none =>
      unfold resolveScope? at hscope
      rw [hs] at hscope
      cases hscope
      unfold Mutation.write?
      rw [hs]
      rfl
    | some scope =>
      cases partition with
      | none => exact absurd hp (Mutation.partition_ne_none hs)
      | some p =>
        rw [(hform scope p hs rfl).1, Mutation.write?_eq hs hp]
        rfl

theorem skipScope_hint {p : ScopeParams κ} (h : m.write? = some p) :
    (w.hint m).skipScope = decide (w.cache.scopes p.scope.id = some p.signature) := by
  unfold Mutation.write? at h
  split at h
  · rename_i hs hp
    cases h
    unfold hint skips skipsScope
    rw [hp, hs]
    rfl
  · cases h

variable {db db' : Db κ} {deltas : List (Delta κ)}

/-- The mutations of a calm batch do what they do one by one. -/
theorem Ready.applyAll_hints (hw : w.Ready ms) (hset : w.settle = db.fill ms)
    (hrefers : db.Refers) (hrem : db.Remembers w.cache.scopes ms) (hcalm : calm ms = true)
    (hsame : db'.content = db.content) :
    Db.strip ((db.applyAll includeDeltas (w.hints includeDeltas ms)).map fun x =>
      (x.1, deltas ++ x.2.2)) = Db.strip (Db.applyEach includeDeltas (db', deltas) ms) := by
  induction ms generalizing w db db' deltas with
  | nil =>
    show Except.ok (db.content, deltas ++ []) = Except.ok (db'.content, deltas)
    rw [append_nil, hsame]
  | cons m ms ih =>
    obtain ⟨⟨hgen, hund⟩, hrest⟩ : (0 ≤ m.connection.generation ∧ _) ∧ calm ms = true := by
      simpa only [calm, Bool.and_eq_true, decide_eq_true_eq] using hcalm
    have hobjs : (db.insertObjects m).Remembers w.cache.scopes (m :: ms) := by
      rw [Db.insertObjects_eq]
      exact hrem.congr rfl rfl
    have hstep := (@Db.apply_content _ _ db' m includeDeltas {} fun hskip =>
      absurd hskip Bool.false_ne_true).symm
    rw [hsame, @Db.apply_content _ _ db m includeDeltas (w.hint m) fun hskip p hp =>
      hobjs.idle hgen hp (of_decide_eq_true ((skipScope_hint hp).symm.trans hskip))] at hstep
    unfold hints Db.applyEach Db.applyAll
    rw [foldlM_cons]
    cases hx : db.apply m includeDeltas (w.hint m) with
    | error e =>
      rw [hx] at hstep
      cases hx' : db'.apply m includeDeltas {} with
      | error e' =>
        rw [hx'] at hstep
        cases hstep
        rfl
      | ok x =>
        rw [hx'] at hstep
        cases hstep
    | ok x =>
      rw [hx] at hstep
      obtain ⟨y, hy, hview⟩ := map_eq_ok.mp hstep
      obtain ⟨hdb, hout⟩ : _ ∧ y.2 = x.2 := Prod.mk.inj hview
      obtain ⟨w', hm, hready, hset'⟩ := hw.apply_next hset hrefers hx
      have hreplay : w.settle.remembered m w.cache.scopes =
          (db.insertObjects m).remembered m w.cache.scopes := by
        rw [hset, show db.fill (m :: ms) = (db.insertObjects m).fill ms from rfl, Db.fill_eq]
        rfl
      have hnext : x.1.Remembers w'.1.cache.scopes ms := by
        rw [hw.scopes_applyMutation hm, hreplay]
        exact hobjs.apply hcalm (fun p hp => skipScope_hint hp) hx
      have hih := @ih w'.1 x.1 y.1 (deltas ++ x.2.2.toList) hready hset' (hrefers.apply hx) hnext
        hrest hdb
      rw [hy, hm]
      refine Eq.trans ?_ (hih.trans ?_)
      · show Db.strip (Except.map _ (x.1.applyAll includeDeltas (w'.1.hints includeDeltas ms) >>=
          fun z => .ok (z.1, _, x.2.2.toList ++ z.2.2))) = _
        cases x.1.applyAll includeDeltas (w'.1.hints includeDeltas ms) with
        | error e => rfl
        | ok z =>
          show Except.ok (z.1.content, deltas ++ (x.2.2.toList ++ z.2.2)) = Except.ok _
          rw [← append_assoc]
      · show _ = Db.strip (Db.applyEach includeDeltas (y.1, deltas ++ y.2.2.toList) ms)
        rw [hout]

theorem partition_of_prepare {batch : Batch κ} {e : Failure κ} (h : prepare db batch = .error e) :
    ∃ m ∈ batch.mutations, ∀ partition, m.partition ≠ .ok partition := by
  by_contra hall
  simp only [not_exists, not_and, not_forall, not_not] at hall
  have hkeys : ∀ m ∈ batch.mutations, ∃ key, m.routeKey = .ok key := by
    intro m hm
    obtain ⟨partition, hp⟩ := hall m hm
    unfold Mutation.routeKey
    rw [hp]
    cases partition <;> cases m.scope <;> cases m.route <;> exact ⟨_, rfl⟩
  obtain ⟨found, hfound⟩ := exists_mapM_eq_ok.mpr hkeys
  unfold prepare prefillCurrentRouteRefs at h
  rw [hfound] at h
  split at h <;> cases h

end Work

namespace Db

variable {db db' : Db κ} {includeDeltas : Bool} {deltas : List (Delta κ)}

theorem applyEach_error {ms : List (Mutation κ)} (state : Db κ × List (Delta κ))
    (h : ∃ m ∈ ms, ∀ partition, m.partition ≠ .ok partition) :
    ∃ e, applyEach includeDeltas state ms = .error e := by
  induction ms generalizing state with
  | nil => simp at h
  | cons m ms ih =>
    unfold applyEach
    rw [foldlM_cons]
    cases hx : state.1.apply m includeDeltas {} with
    | error e => exact ⟨e, rfl⟩
    | ok x =>
      obtain ⟨m', hm', hnot⟩ := h
      rcases mem_cons.mp hm' with rfl | hrest
      · obtain ⟨partition, hp, -⟩ := bind_ok.mp hx
        exact absurd hp (hnot partition)
      · exact ih _ ⟨m', hrest, hnot⟩

/-- A calm batch does what its mutations do one by one, or both fail. -/
theorem applyBatch_same {batch : Batch κ} (h : db.Consistent)
    (hnew : db.batches.find? batch.batchId = none) (hcalm : calm batch.mutations = true)
    (hsame : db'.content = db.content) :
    outcome ((db.applyBatch batch).map fun x => (x.1, deltas ++ x.2.deltas)) =
      outcome (applyEach batch.includeDeltas (db', deltas) batch.mutations) := by
  rw [applyBatch_eq h.refers h.sequenced hnew]
  cases hw : Work.prepare db batch with
  | error e =>
    obtain ⟨e', he⟩ := @applyEach_error _ _ batch.includeDeltas _ (db', deltas)
      (Work.partition_of_prepare hw)
    rw [he]
    rfl
  | ok w =>
    obtain ⟨hready, hset, hscs⟩ := Work.prepare_ok h.sequenced hw
    have hrem : (db.insertBatch batch).Remembers w.cache.scopes batch.mutations := by
      rw [hscs]
      exact nofun
    have hrun := @Work.Ready.applyAll_hints _ _ w _ batch.includeDeltas _ db' deltas hready hset
      ((SameRoutes.mk rfl rfl rfl rfl).refers h.refers) hrem hcalm hsame
    unfold outcome
    rw [← hrun]
    show (strip (Except.map _ (Except.map _ _))).toOption = _
    cases (db.insertBatch batch).applyAll batch.includeDeltas
      (w.hints batch.includeDeltas batch.mutations) <;> rfl

/-- The batches can be applied to the database one after the other: none is taken for one that was
applied before, all ask for deltas or none does, and all are calm. -/
structure Admits (db : Db κ) (includeDeltas : Bool) (batches : List (Batch κ)) : Prop where
  fresh : ∀ batch ∈ batches, db.batches.find? batch.batchId = none
  distinct : (batches.map Batch.batchId).Nodup
  deltas : ∀ batch ∈ batches, batch.includeDeltas = includeDeltas
  calm : ∀ batch ∈ batches, Store.calm batch.mutations = true

theorem batches_apply {m : Mutation κ} {hint : Hint κ} {x : Db κ × Bool × Option (Delta κ)}
    (hx : db.apply m includeDeltas hint = .ok x) : x.1.batches = db.batches := by
  have hobjs : (db.insertObjects m).batches = db.batches := by rw [insertObjects_eq]; rfl
  rcases applyFilled_ok hx with ⟨-, rfl⟩ | ⟨-, -, _, written, -, hscope, heff⟩
  · exact hobjs
  · have hctx : ((db.insertObjects m).resolveContext m).batches = db.batches := by
      rw [← hobjs]
      unfold resolveContext
      cases m.sequence <;> rfl
    have hwr : written.batches = db.batches := by
      rcases resolveScope_ok hscope with ⟨rfl, -⟩ | ⟨_, _, -, -, -, rfl, -⟩
      · exact hctx
      · split <;> exact hctx
    generalize x.1 = after at heff ⊢
    cases heff <;> exact hwr

theorem batches_applyBatch {batch : Batch κ} (h : db.Consistent) {x : Db κ × BatchResult κ}
    (hx : db.applyBatch batch = .ok x) {id : κ} (hid : id ≠ batch.batchId)
    (hnone : db.batches.find? id = none) : x.1.batches.find? id = none := by
  refine applyBatch_induct (P := fun db => db.batches.find? id = none)
    (fun _ _ _ hnone hx => by rw [batches_apply hx]; exact hnone) h.refers h.sequenced hnone ?_ hx
  rw [← Option.not_isSome_iff_eq_none] at hnone ⊢
  intro hsome
  rcases Table.isSome_find?_insert hsome with hold | heq
  · exact hnone hold
  · exact hid heq.symm

theorem Admits.tail {batch : Batch κ} {batches : List (Batch κ)} {x : Db κ × BatchResult κ}
    (h : db.Admits includeDeltas (batch :: batches)) (hcons : db.Consistent)
    (hx : db.applyBatch batch = .ok x) : x.1.Admits includeDeltas batches := by
  obtain ⟨hfresh, hdist, hdeltas, hcalm⟩ := h
  rw [map_cons, nodup_cons] at hdist
  refine ⟨fun b hb => batches_applyBatch hcons hx (fun he => hdist.1 ?_)
    (hfresh b (mem_cons_of_mem _ hb)), hdist.2, fun b hb => hdeltas b (mem_cons_of_mem _ hb),
    fun b hb => hcalm b (mem_cons_of_mem _ hb)⟩
  exact he ▸ mem_map_of_mem hb

theorem applyBatches_same {batches : List (Batch κ)} (h : db.Consistent)
    (hsame : db'.content = db.content) (hadmits : db.Admits includeDeltas batches) :
    outcome (applyBatches (db, deltas) batches) =
      outcome (applyEach includeDeltas (db', deltas) (batches.flatMap Batch.mutations)) := by
  induction batches generalizing db db' deltas with
  | nil => exact congrArg (fun db => some (db, deltas)) hsame.symm
  | cons batch batches ih =>
    have hfirst := @applyBatch_same _ _ db db' deltas batch h (hadmits.fresh batch mem_cons_self)
      (hadmits.calm batch mem_cons_self) hsame
    rw [hadmits.deltas batch mem_cons_self] at hfirst
    rw [flatMap_cons, applyEach_append]
    unfold applyBatches
    rw [foldlM_cons]
    cases hx : db.applyBatch batch with
    | error e =>
      rw [hx] at hfirst
      cases hy : applyEach includeDeltas (db', deltas) batch.mutations with
      | error e' => rfl
      | ok y =>
        rw [hy] at hfirst
        cases hfirst
    | ok x =>
      rw [hx] at hfirst
      cases hy : applyEach includeDeltas (db', deltas) batch.mutations with
      | error e' =>
        rw [hy] at hfirst
        cases hfirst
      | ok y =>
        rw [hy] at hfirst
        obtain ⟨hdb, hout⟩ : x.1.content = y.1.content ∧ deltas ++ x.2.deltas = y.2 :=
          Prod.mk.inj (Option.some_inj.mp hfirst)
        have hrest := @ih x.1 y.1 y.2 (h.applyBatch hx) hdb.symm (hadmits.tail h hx)
        show outcome (applyBatches (x.1, deltas ++ x.2.deltas) batches) = outcome (applyEach _ y _)
        rw [hout]
        exact hrest

/-- Two divisions of one sequence of mutations into batches come to the same. -/
theorem divisions_agree (includeDeltas : Bool) {batches batches' : List (Batch κ)}
    (h : db.Consistent)
    (hsame : batches.flatMap Batch.mutations = batches'.flatMap Batch.mutations)
    (hadmits : db.Admits includeDeltas batches) (hadmits' : db.Admits includeDeltas batches') :
    outcome (applyBatches (db, []) batches) = outcome (applyBatches (db, []) batches') := by
  rw [applyBatches_same h rfl hadmits, applyBatches_same h rfl hadmits', hsame]

/-- Connection 2 has the scope. Connection 1 announces a route in it before and after the other
one is closed. -/
def sampleHandover : List (Mutation ℕ) :=
  [sampleMutation .announce 1 2 1 (some (sampleScope 1 1 .ready)) (some (sampleRoute 7 20)),
    sampleMutation .announce 1 1 1 (some (sampleScope 1 1 .ready)) (some (sampleRoute 8 21)),
    sampleMutation .announce 1 1 2 (some (sampleScope 1 1 .ready)) (some (sampleRoute 8 22)),
    sampleMutation .connectionClose 1 2 2 none none,
    sampleMutation .announce 1 1 3 (some (sampleScope 1 1 .ready)) (some (sampleRoute 8 21))]

theorem divisions_agree_before_handover :
    outcome (applyBatches (.empty, []) [sampleBatch 1 (sampleHandover.take 4) true]) =
      outcome (applyBatches (.empty, []) [sampleBatch 1 (sampleHandover.take 2) true,
        sampleBatch 2 ((sampleHandover.take 4).drop 2) true]) :=
  divisions_agree true consistent_empty rfl ⟨fun _ _ => rfl, by decide, by decide, by decide⟩
    ⟨fun _ _ => rfl, by decide, by decide, by decide⟩

/-- In one batch the scope is not written again, and the route of connection 1 is not stored. -/
theorem handover_depends_on_division :
    outcome (applyBatches (.empty, []) [sampleBatch 1 sampleHandover true]) ≠
      outcome (applyBatches (.empty, []) [sampleBatch 1 (sampleHandover.take 4) true,
        sampleBatch 2 (sampleHandover.drop 4) true]) := by
  intro h
  have hrts := congrArg (fun x => x.map fun x => x.1.routes.rows.length) h
  revert hrts
  decide +kernel

end Db

end Bmp.Store
