import NetNexus.Bmp.Proofs.StoreSettleProofs

/-!
# The caches of a batch agree with the database

What a batch remembers of sources, connections and scopes, and that resolving them from the caches
does to the settled database what resolving them without caches does.
-/

namespace Bmp.Store

open Function Option Store.Db Table

variable {κ : Type} [DecidableEq κ]

namespace Work

/-! ## Caches that agree with the database -/

/-- What the batch remembers of sources, connections, scopes and identities is in the database. -/
structure Context (w : Work κ) : Prop where
  sources : ∀ source : Source κ, w.cache.sources source.id = some source.signature →
    ∃ row, w.db.sources.find? source.id = some row ∧ row.merge source = row
  connections : ∀ (connection : Connection κ) (source : κ),
    (w.cache.connections connection.id).bind CachedConnection.signature =
        some (connection.signature source) →
      ∃ row, w.db.connections.find? connection.id = some row ∧ row.merge connection source = row
  dirty : ∀ id state, w.cache.connections id = some state → state.dirty = true →
    ∃ row, w.db.connections.find? id = some row ∧ row.lastSequence ≤ state.lastSequence
  clean : ∀ id state, w.cache.connections id = some state → state.dirty = false →
    state.lastSequence = w.db.lastSequenceOf id
  sequenced : ∀ row ∈ w.db.connections.rows, 0 ≤ row.lastSequence
  validated : ∀ key ∈ w.cache.validatedScopes,
    ∃ row, w.db.scopes.find? key.scope = some row ∧ row.validation = key
  known : ∀ id ∈ w.cache.routeIdentities, ∃ identity, w.db.identities.find? id = some identity

variable {w : Work κ} {id : κ}

theorem connectionState_of_some {state : CachedConnection κ}
    (h : w.cache.connections id = some state) : w.connectionState id = state := by
  unfold connectionState
  rw [h]

theorem connectionState_of_none (h : w.cache.connections id = none) :
    w.connectionState id = { lastSequence := w.db.lastSequenceOf id } := by
  unfold connectionState lastSequenceOf
  rw [h]
  cases w.db.connections.find? id <;> rfl

/-- With the sequence numbers of the cache in order, resolving a connection writes its row and
keeps the sequence number. -/
theorem resolveConnection_eq (hconn : ∀ (connection : Connection κ) (source : κ),
      (w.cache.connections connection.id).bind CachedConnection.signature =
          some (connection.signature source) →
        ∃ row, w.db.connections.find? connection.id = some row ∧
          row.merge connection source = row) (connection : Connection κ) (source : κ)
    (eventAtMs : ℤ)
    (hle : w.db.lastSequenceOf connection.id ≤ (w.connectionState connection.id).lastSequence)
    (hnonneg : 0 ≤ w.db.lastSequenceOf connection.id) :
    w.resolveConnection connection source eventAtMs =
      { w with db := w.db.upsertConnection connection source eventAtMs }.setConnection
        connection.id
        { w.connectionState connection.id with
          signature := some (connection.signature source) } := by
  unfold resolveConnection
  dsimp only
  split
  · rename_i hcache
    obtain ⟨_, hrow, hmerge⟩ := hconn connection source hcache
    obtain ⟨_, hstate, hsig⟩ := Option.bind_eq_some_iff.mp hcache
    rw [upsertConnection_of_merge eventAtMs hrow hmerge, connectionState_of_some hstate, ← hsig]
    unfold setConnection
    rw [← hstate, update_eq_self]
  · rw [find?_upsertConnection, if_pos rfl]
    dsimp only
    rw [lastSequence_connectionRow]
    cases hs : w.cache.connections connection.id with
    | none =>
      rw [connectionState_of_none hs]
      simp [max_eq_right hnonneg]
    | some _ =>
      rw [connectionState_of_some hs] at hle
      rw [connectionState_of_some hs]
      simp [max_eq_left hle]

section

variable (w) (m : Mutation κ)

def resolvedState : CachedConnection κ where
  lastSequence := m.sequence.getD (w.connectionState m.connection.id).lastSequence
  signature := some (m.connection.signature m.source.id)
  dirty := m.sequence.isSome || (w.connectionState m.connection.id).dirty

/-- The batch once the source and the connection of a mutation were resolved. -/
def resolved : Work κ where
  db := (w.db.upsertSource m.source).upsertConnection m.connection m.source.id m.eventAtMs
  cache := { w.cache with
    sources := update w.cache.sources m.source.id (some m.source.signature)
    connections := update w.cache.connections m.connection.id
      (some (w.resolvedState m)) }

/-- The batch once a source was resolved. -/
def sourced (source : Source κ) : Work κ where
  db := w.db.upsertSource source
  cache := { w.cache with
    sources := update w.cache.sources source.id (some source.signature) }

/-- The mutation comes after all that its connection has sent. -/
def IsNew : Prop :=
  ∀ sequence, m.sequence = some sequence →
    (w.connectionState m.connection.id).lastSequence < sequence

theorem connectionState_setConnection (id : κ) (state : CachedConnection κ) :
    (w.setConnection id state).connectionState id = state := by
  refine connectionState_of_some ?_
  exact update_self id _ w.cache.connections

theorem db_probe : (w.probe m).db = w.db := by
  unfold probe
  split <;> rfl

/-- Remembering the state of a connection adds only what is in the database. -/
theorem probe_eq :
    ∃ connections, w.probe m = { w with cache := { w.cache with connections := connections } } ∧
      ∀ id, connections id = w.cache.connections id ∨ w.cache.connections id = none ∧
        connections id = some { lastSequence := w.db.lastSequenceOf id } := by
  unfold probe
  split
  · refine ⟨_, rfl, fun id => ?_⟩
    by_cases hid : id = m.connection.id
    · subst hid
      rw [update_self]
      cases hs : w.cache.connections m.connection.id with
      | none => exact .inr ⟨rfl, by rw [connectionState_of_none hs]⟩
      | some _ => exact .inl (by rw [connectionState_of_some hs])
    · exact .inl (update_of_ne hid ..)
  · exact ⟨_, rfl, fun _ => .inl rfl⟩

theorem connections_resolved_self :
    (w.resolved m).cache.connections m.connection.id = some (w.resolvedState m) :=
  update_self ..

theorem find?_resolved_connections (id : κ) : (w.resolved m).db.connections.find? id =
      if m.connection.id = id then
        some (w.db.connectionRow m.connection m.source.id m.eventAtMs)
      else w.db.connections.find? id :=
  (w.db.upsertSource m.source).find?_upsertConnection m.connection m.source.id m.eventAtMs id

end

variable {m : Mutation κ}

theorem connections_resolved_of_ne (w : Work κ) (h : id ≠ m.connection.id) :
    (w.resolved m).cache.connections id = w.cache.connections id :=
  update_of_ne h ..

theorem advance_resolved (hm : w.IsNew m) (row : ConnectionRow κ) (hle : row.id = m.connection.id →
      row.lastSequence ≤ (w.connectionState m.connection.id).lastSequence) :
    (w.resolved m).cache.advance row = m.sequence.elim (w.cache.advance row)
      fun sequence => (w.cache.advance row).advanceOf m.connection.id sequence := by
  by_cases hr : row.id = m.connection.id
  · have hstate := w.connections_resolved_self m
    have hle := hle hr
    have hstore : (w.cache.advance row).lastSequence ≤
        (w.connectionState m.connection.id).lastSequence := by
      cases hs : w.cache.connections row.id with
      | none => rwa [Cache.advance_of_clean fun state h => by rw [hs] at h; cases h]
      | some _ =>
        rw [← hr, connectionState_of_some hs] at hle ⊢
        grind [Cache.advance, ConnectionRow.advance]
    rw [← hr] at hstate
    cases hseq : m.sequence with
    | some sequence =>
      have hnew := hm sequence hseq
      have hself : (w.cache.advance row).advanceOf m.connection.id sequence = _ :=
        if_pos ((w.cache.id_advance row).trans hr)
      rw [Cache.advance_of_connection hstate (by unfold resolvedState; rw [hseq]; rfl),
        elim_some, hself, Cache.advance_advance (hstore.trans_lt hnew) (hle.trans_lt hnew)]
      unfold resolvedState
      rw [hseq, getD_some]
    | none =>
      -- nothing is advanced: the states of the connection differ in their signature only
      unfold Cache.advance resolvedState at *
      rw [hstate, hseq]
      cases hs : w.cache.connections row.id with
      | none =>
        rw [connectionState_of_none (hr ▸ hs)]
        rfl
      | some _ =>
        rw [connectionState_of_some (hr ▸ hs)]
        rfl
  · rw [Cache.advance_congr (w.connections_resolved_of_ne hr)]
    cases m.sequence with
    | none => rfl
    | some _ => exact (if_neg fun he => hr ((w.cache.id_advance row).symm.trans he)).symm

/-- The scope that is there is another one. -/
def collides (db : Db κ) (m : Mutation κ) (scope : Scope κ) (partition : RoutePartition) : Bool :=
  (db.scopes.find? scope.id).any fun row => row.validation ≠ scope.validation m.source.id partition

/-- The batch wrote the scope last with the signature of the mutation. -/
def skipsScope (w : Work κ) (m : Mutation κ) (scope : Scope κ) (partition : RoutePartition) :
    Bool :=
  w.cache.scopes scope.id = some (m.scopeParams scope partition).signature

/-- What `resolveScope` makes of the state if it does not fail. -/
def scopeResolved (w : Work κ) (m : Mutation κ) (scope : Scope κ) (partition : RoutePartition) :
    Work κ where
  db := if w.skipsScope m scope partition then w.db
    else w.db.upsertScope (m.scopeParams scope partition)
  cache := { w.cache with
    validatedScopes := w.cache.validatedScopes.insert (scope.validation m.source.id partition)
    scopes := update w.cache.scopes scope.id
      (some (m.scopeParams scope partition).signature) }

variable {scope : Scope κ} {partition : RoutePartition}

theorem settle_scoped (w : Work κ) (m : Mutation κ) (scope : Scope κ) (partition : RoutePartition)
    (h : ∀ r ∈ w.pending, (w.db.upsertScope (m.scopeParams scope partition)).owns r = w.db.owns r) :
    (w.scopeResolved m scope partition).settle =
      if w.skipsScope m scope partition then w.settle
      else w.settle.upsertScope (m.scopeParams scope partition) := by
  cases hs : w.skipsScope m scope partition with
  | true =>
    unfold scopeResolved
    rw [hs]
    rfl
  | false =>
    unfold settle
    rw [← settled_upsertScope _ _ _ _ h]
    unfold scopeResolved
    rw [hs]
    rfl

theorem validation_of_not_collides {db : Db κ} {row : ScopeRow κ}
    (hc : collides db m scope partition = false) (hrow : db.scopes.find? scope.id = some row) :
    row.validation = scope.validation m.source.id partition := by
  unfold collides at hc
  rw [hrow, any_some, decide_eq_false_iff_not, not_not] at hc
  exact hc

theorem exists_row_scopeResolved (hc : collides w.db m scope partition = false)
    (hsome : ((w.scopeResolved m scope partition).db.scopes.find? scope.id).isNone = false) :
    ∃ row, (w.scopeResolved m scope partition).db.scopes.find? scope.id = some row ∧
      row.validation = scope.validation m.source.id partition := by
  unfold scopeResolved at hsome ⊢
  split at hsome
  · rename_i hskip
    rw [if_pos hskip]
    cases hrow : w.db.scopes.find? scope.id with
    | none =>
      rw [hrow] at hsome
      cases hsome
    | some row => exact ⟨row, rfl, validation_of_not_collides hc hrow⟩
  · rename_i hskip
    rw [if_neg hskip]
    cases hrow : w.db.scopes.find? scope.id with
    | none =>
      have hfind := w.db.find?_upsertScope (m.scopeParams scope partition)
      rw [show w.db.scopes.find? (m.scopeParams scope partition).scope.id = none from hrow] at hfind
      exact ⟨_, hfind, rfl⟩
    | some _ =>
      obtain ⟨row', hrow', hval⟩ :=
        validation_upsertScope hrow
      exact ⟨row', hrow', hval.trans (validation_of_not_collides hc hrow)⟩

/-- What a batch remembers of the context, and what that is about. -/
def contextual (w : Work κ) : Work κ where
  db := { Db.empty with
    sources := w.db.sources
    connections := w.db.connections
    scopes := w.db.scopes
    identities := w.db.identities }
  cache :=
    { sources := w.cache.sources
      connections := w.cache.connections
      validatedScopes := w.cache.validatedScopes
      routeIdentities := w.cache.routeIdentities }

namespace Context

variable (hw : w.Context)
include hw

theorem congr {w' : Work κ} (h : w'.contextual = w.contextual) : w'.Context := by
  have hctx : w.contextual.Context := { hw with }
  rw [← h] at hctx
  exact { hctx with }

variable (id : κ)

/-- A row has the sequence number that the batch knows, or a lower one that the batch will
overwrite. -/
theorem lastSequence_le : w.db.lastSequenceOf id ≤ (w.connectionState id).lastSequence := by
  cases hs : w.cache.connections id with
  | none => rw [connectionState_of_none hs]
  | some state =>
    rw [connectionState_of_some hs]
    cases hd : state.dirty with
    | true =>
      obtain ⟨_, hrow, hle⟩ := hw.dirty id state hs hd
      unfold lastSequenceOf
      rw [hrow]
      exact hle
    | false => exact (hw.clean id state hs hd).ge

theorem lastSequenceOf_nonneg : 0 ≤ w.db.lastSequenceOf id := by
  unfold lastSequenceOf
  cases hrow : w.db.connections.find? id with
  | none => exact le_rfl
  | some row => exact hw.sequenced row (find?_eq_some_iff.mp hrow).1

/-- The sequence number that replays are told by is the one that the batch will write. -/
theorem lastSequenceOf_settle :
    w.settle.lastSequenceOf id = (w.connectionState id).lastSequence := by
  have hfind : w.settle.connections.find? id = _ :=
    w.db.find?_settled_connections w.pending w.cache id
  have hclean : (∀ state, w.cache.connections id = some state → state.dirty = false) →
      w.settle.lastSequenceOf id = w.db.lastSequenceOf id := by
    intro hclean
    unfold lastSequenceOf
    rw [hfind]
    cases hrow : w.db.connections.find? id with
    | none => rfl
    | some row =>
      obtain rfl : row.id = id := key_of_find? hrow
      rw [map_some, Cache.advance_of_clean hclean]
  cases hs : w.cache.connections id with
  | none => rw [connectionState_of_none hs, hclean fun state h => by rw [hs] at h; cases h]
  | some state =>
    rw [connectionState_of_some hs]
    cases hd : state.dirty with
    | true =>
      obtain ⟨row, hrow, _⟩ := hw.dirty id state hs hd
      obtain rfl : row.id = id := key_of_find? hrow
      unfold lastSequenceOf
      rw [hfind, hrow, map_some, Cache.advance_of_connection hs hd]
      dsimp only
      unfold ConnectionRow.advance
      split
      · rfl
      · omega
    | false =>
      rw [hw.clean id state hs hd]
      exact hclean fun _ h => by rw [← Option.some_inj.mp (hs.symm.trans h), hd]

/-! ## Resolving the source and the connection -/

theorem resolveSource_eq (source : Source κ) : w.resolveSource source = w.sourced source := by
  unfold resolveSource sourced
  split
  · rename_i hcache
    obtain ⟨_, hrow, hmerge⟩ := hw.sources source hcache
    rw [upsertSource_of_merge hrow hmerge, ← hcache, update_eq_self]
  · rfl

theorem probe (m : Mutation κ) : (w.probe m).Context := by
  obtain ⟨_, hprobe, hsame⟩ := w.probe_eq m
  rw [hprobe]
  refine { hw with
    connections := fun connection source hcache => ?_
    dirty := fun id state hstate hdirty => ?_
    clean := fun id state hstate hclean => ?_ }
  · rcases hsame connection.id with hold | ⟨-, hnew⟩
    · exact hw.connections connection source (hold ▸ hcache)
    · obtain ⟨_, hstate, hsig⟩ := Option.bind_eq_some_iff.mp hcache
      cases hnew.symm.trans hstate
      cases hsig
  · rcases hsame id with hold | ⟨-, hnew⟩
    · exact hw.dirty id state (hold ▸ hstate) hdirty
    · cases hnew.symm.trans hstate
      cases hdirty
  · rcases hsame id with hold | ⟨-, hnew⟩
    · exact hw.clean id state (hold ▸ hstate) hclean
    · cases hnew.symm.trans hstate
      rfl

theorem resolved_eq (m : Mutation κ) :
    (((w.probe m).resolveSource m.source).resolveConnection m.connection m.source.id
      m.eventAtMs).advanceSequence m.connection.id m.sequence = w.resolved m := by
  have hp := hw.probe m
  have hle := hp.lastSequence_le m.connection.id
  have hnonneg := hp.lastSequenceOf_nonneg m.connection.id
  have hconn := resolveConnection_eq (w := (w.probe m).sourced m.source) hp.connections
    m.connection m.source.id m.eventAtMs hle hnonneg
  -- the state of the connection is not changed by the source
  rw [hp.resolveSource_eq, hconn]
  unfold resolved resolvedState
  cases hseq : m.sequence with
  | none =>
    have hprobed : w.probe m = w := by
      unfold Work.probe
      rw [hseq]
      rfl
    rw [hprobed]
    rfl
  | some _ =>
    have hprobed : w.probe m =
        w.setConnection m.connection.id (w.connectionState m.connection.id) := by
      unfold Work.probe
      rw [hseq]
      rfl
    rw [hprobed]
    unfold advanceSequence
    rw [connectionState_setConnection]
    unfold setConnection sourced
    simp only [update_idem]
    rfl

theorem resolved (hm : w.IsNew m) : (w.resolved m).Context := by
  have hle := hw.lastSequence_le m.connection.id
  have hrow := w.db.lastSequence_connectionRow m.connection m.source.id m.eventAtMs
  refine ⟨?_, ?_, ?_, ?_, ?_, hw.validated, hw.known⟩
  · intro source hcache
    have hfind : (w.resolved m).db.sources.find? source.id =
        if m.source.id = source.id then some (w.db.sourceRow m.source)
        else w.db.sources.find? source.id := by
      show (w.db.upsertSource m.source).sources.find? source.id = _
      rw [upsertSource_eq]
      rw [find?_upsert, id_sourceRow]
    by_cases hid : source.id = m.source.id
    · have hsig : source.signature = m.source.signature := by
        have hself := update_self m.source.id (some m.source.signature) w.cache.sources
        rw [← hid] at hself
        exact (Option.some_inj.mp (hself.symm.trans (hid ▸ hcache))).symm
      refine ⟨_, by rw [hfind, if_pos hid.symm], ?_⟩
      exact w.db.merge_sourceRow hsig
    · have hcache' : w.cache.sources source.id = some source.signature :=
        (update_of_ne hid ..).symm.trans hcache
      obtain ⟨row, hsome, hmerge⟩ := hw.sources source hcache'
      exact ⟨row, by rw [hfind, if_neg fun he => hid he.symm, hsome], hmerge⟩
  · intro connection source hcache
    by_cases hid : connection.id = m.connection.id
    · rw [hid, connections_resolved_self] at hcache
      have hsig : connection.signature source = m.connection.signature m.source.id :=
        (Option.some_inj.mp hcache).symm
      refine ⟨_, by rw [find?_resolved_connections, if_pos hid.symm], ?_⟩
      exact w.db.merge_connectionRow hsig m.eventAtMs
    · rw [connections_resolved_of_ne w hid] at hcache
      obtain ⟨row, hsome, hmerge⟩ := hw.connections connection source hcache
      refine ⟨row, ?_, hmerge⟩
      rw [find?_resolved_connections, if_neg fun he => hid he.symm, hsome]
  · intro id state hstate hdirty
    by_cases hid : id = m.connection.id
    · subst hid
      rw [connections_resolved_self] at hstate
      refine ⟨_, by rw [find?_resolved_connections, if_pos rfl], ?_⟩
      rw [hrow, ← Option.some_inj.mp hstate]
      unfold resolvedState
      cases hseq : m.sequence with
      | none => exact hle
      | some sequence => exact hle.trans (hm sequence hseq).le
    · rw [connections_resolved_of_ne w hid] at hstate
      obtain ⟨row, hsome, hlast⟩ := hw.dirty id state hstate hdirty
      refine ⟨row, ?_, hlast⟩
      rw [find?_resolved_connections, if_neg fun he => hid he.symm, hsome]
  · intro id state hstate hclean
    by_cases hid : id = m.connection.id
    · subst hid
      rw [connections_resolved_self] at hstate
      cases hstate
      have hparts : m.sequence.isSome = false ∧
          (w.connectionState m.connection.id).dirty = false := Bool.or_eq_false_iff.mp hclean
      have hlast : (w.resolved m).db.lastSequenceOf m.connection.id =
          w.db.lastSequenceOf m.connection.id := by
        rw [← hrow]
        unfold lastSequenceOf
        rw [find?_resolved_connections, if_pos rfl]
      rw [hlast]
      show m.sequence.getD _ = _
      rw [isSome_eq_false_iff, isNone_iff_eq_none] at hparts
      rw [hparts.1, getD_none]
      cases hs : w.cache.connections m.connection.id with
      | none => rw [connectionState_of_none hs]
      | some state =>
        rw [connectionState_of_some hs] at hparts ⊢
        exact hw.clean _ state hs hparts.2
    · rw [connections_resolved_of_ne w hid] at hstate
      rw [hw.clean id state hstate hclean]
      unfold lastSequenceOf
      rw [find?_resolved_connections, if_neg fun he => hid he.symm]
  · intro row hmem
    have hfind := Table.mem_rows_iff.mp hmem
    rw [find?_resolved_connections] at hfind
    split at hfind
    · rw [← Option.some_inj.mp hfind, hrow]
      exact hw.lastSequenceOf_nonneg _
    · exact hw.sequenced row (find?_eq_some_iff.mp hfind).1

/-- The row of the connection once its sequence number is written, and before. -/
theorem connectionRow_settle (connection : Connection κ) (source : κ) (eventAtMs : ℤ) :
    w.settle.connectionRow connection source eventAtMs =
      w.cache.advance (w.db.connectionRow connection source eventAtMs) := by
  have hfind : w.settle.connections.find? connection.id =
      (w.db.connections.find? connection.id).map w.cache.advance :=
    w.db.find?_settled_connections w.pending w.cache connection.id
  unfold connectionRow
  rw [hfind]
  cases hrow : w.db.connections.find? connection.id with
  | none =>
    refine (Cache.advance_of_clean fun state hstate => ?_).symm
    cases hd : state.dirty with
    | false => rfl
    | true =>
      obtain ⟨row, hsome, -⟩ := hw.dirty _ state hstate hd
      have hnone : w.db.connections.find? connection.id = some row := hsome
      rw [hrow] at hnone
      cases hnone
  | some row => exact congrFun (Cache.advance_comp (f := fun row => row.merge connection source)
      (fun _ => rfl) (fun _ => rfl) fun _ _ => rfl).symm row

theorem connections_settle_resolved (hm : w.IsNew m) :
    (w.resolved m).settle.connections = (w.settle.resolveContext m).connections := by
  have hle := hw.lastSequence_le m.connection.id
  have hlast := w.db.lastSequence_connectionRow m.connection m.source.id m.eventAtMs
  have hrow := advance_resolved hm _ fun _ => hlast.trans_le hle
  have hrows := fun row hmem =>
    advance_resolved hm row fun hr => by
      unfold lastSequenceOf at hle
      rwa [show _ = some row from
        find?_eq_some_iff.mpr ⟨hmem, hr⟩] at hle
  have hleft : (w.resolved m).settle.connections =
      (w.db.connections.modify (w.resolved m).cache.advance
        (w.resolved m).cache.id_advance).upsert
        ((w.resolved m).cache.advance
          (w.db.connectionRow m.connection m.source.id m.eventAtMs)) := by
    rw [← modify_upsert]
    show ((w.db.upsertSource m.source).upsertConnection ..).connections.modify
      _ (w.resolved m).cache.id_advance = _
    rw [upsertConnection_eq]
    rfl
  have hright : ((w.settle.upsertSource m.source).upsertConnection m.connection m.source.id
      m.eventAtMs).connections =
        (w.db.connections.modify w.cache.advance w.cache.id_advance).upsert
          (w.cache.advance (w.db.connectionRow m.connection m.source.id m.eventAtMs)) := by
    rw [← hw.connectionRow_settle, upsertConnection_eq]
    rfl
  rw [hleft, hrow]
  unfold resolveContext
  cases hseq : m.sequence with
  | none =>
    rw [hseq] at hrows
    rw [elim_none, modify_congr _ w.cache.id_advance hrows, ← hright]
  | some sequence =>
    rw [hseq] at hrows
    show _ = (((w.settle.upsertSource m.source).upsertConnection m.connection m.source.id
      m.eventAtMs).connections).modify _
        (ConnectionRow.id_advanceOf m.connection.id sequence)
    rw [hright, modify_upsert]
    congr 1
    refine eq_of_rows ?_
    show _ = List.map _ (List.map ..)
    rw [List.map_map]
    exact List.map_congr_left hrows

theorem settle_resolved (hm : w.IsNew m) : (w.resolved m).settle = w.settle.resolveContext m := by
  have hconns := hw.connections_settle_resolved hm
  have hleft : (w.resolved m).settle =
      { w.settle.upsertSource m.source with connections := (w.resolved m).settle.connections } :=
        rfl
  rw [hleft, hconns]
  unfold resolveContext
  cases m.sequence <;> rfl

/-! ## Resolving the scope -/

theorem collides_eq_false (h : scope.validation m.source.id partition ∈ w.cache.validatedScopes) :
    collides w.db m scope partition = false := by
  obtain ⟨row, hrow, hval⟩ := hw.validated _ h
  have hfind : w.db.scopes.find? scope.id = some row := hrow
  unfold collides
  rw [hfind, any_some, hval]
  simp

theorem resolveScope_eq (m : Mutation κ) (scope : Scope κ) (partition : RoutePartition) :
    w.resolveScope m scope partition =
      if collides w.db m scope partition then .error (.scopeIdentityCollision scope.id)
      else if ((w.scopeResolved m scope partition).db.scopes.find? scope.id).isNone then
        .error (.scopeNotPersisted scope.id)
      else .ok (w.scopeResolved m scope partition) := by
  -- writing with the signature that is remembered changes no cache
  have hwrite : ∀ validated : List (ScopeValidation κ),
      writeScope { w with cache := { w.cache with validatedScopes := validated } } m scope
        partition =
      { db := if w.skipsScope m scope partition then w.db
          else w.db.upsertScope (m.scopeParams scope partition)
        cache := { w.cache with
          validatedScopes := validated
          scopes := update w.cache.scopes scope.id
            (some (m.scopeParams scope partition).signature) } } := by
    intro validated
    unfold writeScope skipsScope
    by_cases hs : w.cache.scopes scope.id = some (m.scopeParams scope partition).signature
    · rw [if_pos hs, decide_eq_true hs, if_pos rfl, ← hs, update_eq_self]
    · rw [if_neg hs, decide_eq_false hs, if_neg Bool.false_ne_true]
  unfold resolveScope validateScope
  by_cases hk : scope.validation m.source.id partition ∈ w.cache.validatedScopes
  · have hw' := hwrite w.cache.validatedScopes
    rw [if_pos hk, hw.collides_eq_false hk]
    unfold scopeResolved
    rw [List.insert_of_mem hk]
    show (if (writeScope w m scope partition).db.scopes.find? scope.id |>.isNone then _ else _) = _
    rw [show writeScope w m scope partition = _ from hw']
    rfl
  · rw [if_neg hk]
    unfold scopeResolved
    rw [List.insert_of_not_mem hk]
    by_cases hc : collides w.db m scope partition = true
    · rw [if_pos hc, if_pos (show Option.any _ _ = true from hc)]
      rfl
    · rw [if_neg hc, if_neg (show ¬ Option.any _ _ = true from hc)]
      show (if (writeScope _ m scope partition).db.scopes.find? scope.id |>.isNone then _
        else _) = _
      rw [hwrite]
      rfl

theorem resolveScope_settle (hscope : m.scope = some scope)
    (h : ∀ r ∈ w.pending, (w.db.upsertScope (m.scopeParams scope partition)).owns r = w.db.owns r) :
    w.settle.resolveScope m (some partition) (w.skipsScope m scope partition) =
      (w.resolveScope m scope partition).map settle := by
  have hset := w.settle_scoped m scope partition h
  rw [hw.resolveScope_eq]
  unfold Db.resolveScope
  rw [hscope]
  dsimp only
  rw [← hset]
  show (if collides w.db m scope partition then _ else
    if ((w.scopeResolved m scope partition).db.scopes.find? scope.id).isNone then _ else _) = _
  split
  · rfl
  · split <;> rfl

theorem scopeResolved (hc : collides w.db m scope partition = false)
    (hsome : ((w.scopeResolved m scope partition).db.scopes.find? scope.id).isNone = false) :
    (w.scopeResolved m scope partition).Context := by
  have hrow := exists_row_scopeResolved hc hsome
  obtain ⟨_, hdb⟩ : ∃ scopes,
      (w.scopeResolved m scope partition).db = { w.db with scopes := scopes } := by
    unfold Work.scopeResolved
    split <;> exact ⟨_, rfl⟩
  refine ⟨hdb ▸ hw.sources, hdb ▸ hw.connections, hdb ▸ hw.dirty, hdb ▸ hw.clean,
    hdb ▸ hw.sequenced, fun key hkey => ?_, hdb ▸ hw.known⟩
  -- the keys from before and the one of the mutation
  have hcases : key = scope.validation m.source.id partition ∨ key ∈ w.cache.validatedScopes :=
    List.mem_insert_iff.mp hkey
  rcases hcases with rfl | hold
  · exact hrow
  · obtain ⟨row, hfind, hval⟩ := hw.validated key hold
    unfold Work.scopeResolved
    split
    · exact ⟨row, hfind, hval⟩
    · obtain ⟨row', hrow', hval'⟩ :=
        validation_upsertScope hfind
      exact ⟨row', hrow', hval'.trans hval⟩

end Context

end Work

end Bmp.Store
