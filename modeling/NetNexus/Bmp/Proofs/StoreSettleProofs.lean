import Mathlib.Data.List.Induction
import NetNexus.Bmp.StoreDirect
import NetNexus.Control.Fallible
import NetNexus.Table.Proofs.TableProofs

/-!
# Rows that a batch writes again, and what it puts off

The database as it is once a batch has made the refreshes and written the sequence numbers that it
puts off, and how writes go through that.
-/

namespace Bmp.Store

open List Table

variable {κ : Type}

/-! ## Rows that are written again -/

variable {source source' : Source κ} {connection connection' : Connection κ}

theorem Source.merge_merge (h : source'.signature = source.signature) (old : Source κ) :
    (old.merge source).merge source' = old.merge source := by
  simp only [Source.signature, SourceSignature.mk.injEq] at h
  obtain ⟨-, hip, hname, hdesc, hmeta⟩ := h
  simp [Source.merge, hip, hname, hdesc, hmeta, ← Option.or_assoc]

theorem Source.merge_self (h : source'.signature = source.signature) :
    source.merge source' = source := by
  simp only [Source.signature, SourceSignature.mk.injEq] at h
  obtain ⟨-, hip, hname, hdesc, hmeta⟩ := h
  simp [Source.merge, hip, hname, hdesc, hmeta]

theorem ConnectionRow.merge_merge {source source' : κ}
    (h : connection'.signature source' = connection.signature source) (old : ConnectionRow κ) :
    (old.merge connection source).merge connection' source' = old.merge connection source := by
  simp only [Connection.signature, ConnectionSignature.mk.injEq] at h
  obtain ⟨hsrc, -, hip, hport, hrip, hrport, -⟩ := h
  simp [ConnectionRow.merge, hsrc, hip, hport, hrip, hrport, ← Option.or_assoc]

theorem Connection.merge_row {source source' : κ}
    (h : connection'.signature source' = connection.signature source) (eventAtMs : ℤ) :
    (connection.row source eventAtMs).merge connection' source' =
      connection.row source eventAtMs := by
  simp only [Connection.signature, ConnectionSignature.mk.injEq] at h
  obtain ⟨hsrc, -, hip, hport, hrip, hrport, -⟩ := h
  simp [ConnectionRow.merge, Connection.row, hsrc, hip, hport, hrip, hrport]

/-- Only the sequence number of a connection is put off. -/
theorem Cache.advance_eq (cache : Cache κ) (row : ConnectionRow κ) :
    cache.advance row = { row with lastSequence := (cache.advance row).lastSequence } := by
  unfold Cache.advance ConnectionRow.advance
  split
  · split
    · split <;> rfl
    · rfl
  · rfl

variable {cache : Cache κ} {row : ConnectionRow κ}

theorem Cache.advance_of_connection {state : CachedConnection κ}
    (h : cache.connections row.id = some state) (hdirty : state.dirty = true) :
    cache.advance row = row.advance state.lastSequence := by
  unfold Cache.advance
  rw [h]
  simp [hdirty]

theorem Cache.advance_of_clean
    (h : ∀ state, cache.connections row.id = some state → state.dirty = false) :
    cache.advance row = row := by
  unfold Cache.advance
  cases hs : cache.connections row.id with
  | none => rfl
  | some state => simp [h state hs]

theorem Cache.advance_congr {cache' : Cache κ}
    (h : cache'.connections row.id = cache.connections row.id) :
    cache'.advance row = cache.advance row := by
  unfold Cache.advance
  rw [h]

/-- A row with a lower sequence number gets the higher one, whatever it was. -/
theorem Cache.advance_advance {sequence : ℤ} (h : (cache.advance row).lastSequence < sequence)
    (hle : row.lastSequence < sequence) :
    (cache.advance row).advance sequence = row.advance sequence := by
  unfold ConnectionRow.advance
  rw [if_pos h, if_pos hle, cache.advance_eq]

/-- Writes to the other columns go through it. -/
theorem Cache.advance_comp {f : ConnectionRow κ → ConnectionRow κ}
    (hid : ∀ row, (f row).id = row.id)
    (hlast : ∀ row, (f row).lastSequence = row.lastSequence)
    (hf : ∀ row n, f { row with lastSequence := n } = { f row with lastSequence := n }) :
    cache.advance ∘ f = f ∘ cache.advance := by
  funext row
  show cache.advance _ = f _
  unfold Cache.advance ConnectionRow.advance
  rw [show cache.connections (f row).id = _ from congrArg cache.connections (hid row)]
  cases cache.connections row.id with
  | none => rfl
  | some state =>
    dsimp only
    split
    · by_cases hlt : row.lastSequence < state.lastSequence
      · rw [if_pos hlt, if_pos ((hlast row).trans_lt hlt)]
        exact (hf row _).symm
      · rw [if_neg hlt, if_neg fun h => hlt ((hlast row).symm.trans_lt h)]
    · rfl

variable [DecidableEq κ]

/-! ## The database once a batch has written what it put off -/

namespace Db

/-- The row is one for the owner of its scope. -/
def owns (db : Db κ) (p : RouteParams κ) : Bool :=
  db.ownsScope p.key.partition p.key.scope p.connection p.epoch

/-- A row after the refreshes that were put off. -/
def flushRow (db : Db κ) (rows : List (RouteParams κ)) (r : CurrentRoute κ) : CurrentRoute κ :=
  rows.foldl (fun r p => db.refreshRow p r) r

variable (db : Db κ) (rows : List (RouteParams κ)) (r : CurrentRoute κ) (p : RouteParams κ)

theorem refs_refreshRow (r : CurrentRoute κ) : (db.refreshRow p r).refs = r.refs := by
  unfold refreshRow
  split <;> rfl

theorem flushRow_append : db.flushRow (rows ++ [p]) r = db.refreshRow p (db.flushRow rows r) := by
  rw [flushRow, foldl_append]
  rfl

theorem key_flushRow : (db.flushRow rows r).key = r.key :=
  foldlRecOn (motive := fun r' => r'.key = r.key) rows _ rfl fun r' h p _ =>
    (db.key_refreshRow p r').trans h

theorem refs_flushRow : (db.flushRow rows r).refs = r.refs :=
  foldlRecOn (motive := fun r' => r'.refs = r.refs) rows _ rfl fun r' h p _ =>
    (db.refs_refreshRow p r').trans h

variable {db rows r}

theorem refreshRow_of_key_ne {p : RouteParams κ} (h : r.key ≠ p.key) : db.refreshRow p r = r := by
  unfold refreshRow RouteParams.describes
  rw [decide_eq_false h]
  rfl

theorem flushRow_of_key_ne (h : ∀ p ∈ rows, r.key ≠ p.key) : db.flushRow rows r = r := by
  refine foldlRecOn (motive := (· = r)) rows _ rfl fun r' hsame p hp => ?_
  rw [hsame]
  exact refreshRow_of_key_ne (h p hp)

/-- The rows are refreshed alike where the scopes are owned alike. -/
theorem flushRow_congr {db' : Db κ} (h : ∀ p ∈ rows, db'.owns p = db.owns p)
    (r : CurrentRoute κ) : db'.flushRow rows r = db.flushRow rows r :=
  foldl_ext _ _ r fun r p hp =>
    congrArg (fun owns => if p.describes r && owns then _ else r) (h p hp)

/-- The database once the refreshes are made and the sequence numbers are written. -/
def settled (db : Db κ) (rows : List (RouteParams κ)) (cache : Cache κ) : Db κ :=
  { db with
    routes := db.routes.modify (db.flushRow rows) (db.key_flushRow rows)
    connections := db.connections.modify cache.advance cache.id_advance }

theorem modify_flushRow_nil (db : Db κ) :
    db.routes.modify (db.flushRow []) (db.key_flushRow []) = db.routes :=
  eq_of_rows (map_id _)

theorem foldl_refreshRouteMetadata (db : Db κ) (rows : List (RouteParams κ)) :
    rows.foldl refreshRouteMetadata db =
      { db with routes := db.routes.modify (db.flushRow rows) (db.key_flushRow rows) } := by
  induction rows using List.reverseRecOn with
  | nil =>
    rw [modify_flushRow_nil]
    rfl
  | append_singleton rows p ih =>
    rw [foldl_append, ih]
    show refreshRouteMetadata _ p = _
    unfold refreshRouteMetadata touchRoutes
    congr 1
    refine eq_of_rows ?_
    show List.map _ (List.map ..) = _
    rw [map_map]
    exact map_congr_left fun r _ => (db.flushRow_append rows r p).symm

section Settled

variable (db : Db κ) (rows : List (RouteParams κ)) (cache : Cache κ)

theorem settled_nil : db.settled [] cache = Work.commitConnectionSequences db cache := by
  rw [settled, modify_flushRow_nil]
  rfl

theorem find?_settled_connections (connection : κ) :
    (db.settled rows cache).connections.find? connection =
      (db.connections.find? connection).map cache.advance :=
  find?_modify _ cache.advance cache.id_advance connection

variable (key : RouteKey κ)

theorem find?_settled_routes :
    (db.settled rows cache).routes.find? key = (db.routes.find? key).map (db.flushRow rows) :=
  find?_modify _ _ (db.key_flushRow rows) key

theorem generationOf_settled (connection : κ) :
    (db.settled rows cache).generationOf connection = db.generationOf connection ∧
      (db.settled rows cache).isOpen connection = db.isOpen connection := by
  unfold generationOf isOpen
  rw [find?_settled_connections]
  cases db.connections.find? connection with
  | none => exact ⟨rfl, rfl⟩
  | some row =>
    show (cache.advance row).generation = row.generation ∧ (cache.advance row).isOpen = _
    rw [cache.advance_eq]
    exact ⟨rfl, rfl⟩

/-- Whether a connection takes over depends on the generations and on what is open. -/
theorem replacesScopeConnection_congr {db db' : Db κ}
    (h : ∀ c, db'.generationOf c = db.generationOf c ∧ db'.isOpen c = db.isOpen c)
    (scope : ScopeRow κ) (connection : κ) :
    db'.replacesScopeConnection scope connection = db.replacesScopeConnection scope connection := by
  unfold replacesScopeConnection
  rw [(h _).1, (h _).1, (h _).2, (h _).2]

theorem updatedScope_congr {db db' : Db κ}
    (h : ∀ c, db'.generationOf c = db.generationOf c ∧ db'.isOpen c = db.isOpen c)
    (scope : ScopeRow κ) (p : ScopeParams κ) :
    db'.updatedScope scope p = db.updatedScope scope p := by
  have hr := replacesScopeConnection_congr h scope p.connection
  unfold updatedScope acceptsScopeConnection acceptsScopeProgress
  rw [hr]

/-- Putting off goes through a write of a scope that leaves alone who owns the scopes at stake. -/
theorem settled_upsertScope (p : ScopeParams κ)
    (h : ∀ r ∈ rows, (db.upsertScope p).owns r = db.owns r) :
    (db.upsertScope p).settled rows cache = (db.settled rows cache).upsertScope p := by
  have hrts : db.routes.modify ((db.upsertScope p).flushRow rows)
      ((db.upsertScope p).key_flushRow rows) =
        db.routes.modify (db.flushRow rows) (db.key_flushRow rows) :=
    modify_congr _ _ fun r _ => flushRow_congr h r
  have hscope : ∀ scope, (db.settled rows cache).updatedScope scope p = db.updatedScope scope p :=
    fun scope => updatedScope_congr (db.generationOf_settled rows cache) scope p
  have hscs : (db.upsertScope p).scopes = ((db.settled rows cache).upsertScope p).scopes := by
    unfold upsertScope
    simp only [hscope]
    rfl
  show { db.upsertScope p with
    routes := db.routes.modify _
      ((db.upsertScope p).key_flushRow rows)
    connections := db.connections.modify cache.advance cache.id_advance } = _
  rw [hrts]
  show { db.settled rows cache with scopes := (db.upsertScope p).scopes } = _
  rw [hscs]
  rfl

theorem findCurrentRoute_settled :
    (db.settled rows cache).findCurrentRoute key = db.findCurrentRoute key := by
  unfold findCurrentRoute
  rw [find?_settled_routes]
  cases hr : db.routes.find? key with
  | none => rfl
  | some r =>
    have hrefs := db.refs_flushRow rows r
    have hpay : (db.flushRow rows r).payload = r.payload := congrArg RouteRefs.payload hrefs
    have hattr : (db.flushRow rows r).attr = r.attr := congrArg RouteRefs.attr hrefs
    have hconn : (db.flushRow rows r).connection = r.connection :=
      congrArg RouteRefs.connection hrefs
    have hepoch : (db.flushRow rows r).ribEpoch = r.ribEpoch := congrArg RouteRefs.ribEpoch hrefs
    simp only [Option.map_some, Option.bind_eq_bind, Option.bind_some, hrefs, hpay, hattr,
      hconn, hepoch, find?_settled_connections]
    congr 1
    funext identity
    congr 1
    funext payload
    congr 1
    funext scope
    cases db.connections.find? r.connection <;> rfl

theorem find?_settled_routes_of_key_ne {key : RouteKey κ} (h : ∀ p ∈ rows, key ≠ p.key) :
    (db.settled rows cache).routes.find? key = db.routes.find? key := by
  rw [find?_settled_routes]
  cases hr : db.routes.find? key with
  | none => rfl
  | some _ =>
    refine congrArg some (flushRow_of_key_ne fun p hp => ?_)
    rw [key_of_find? hr]
    exact h p hp

theorem settled_writeRoute (r : CurrentRoute κ) (h : ∀ p ∈ rows, r.key ≠ p.key) :
    (db.writeRoute r).settled rows cache = (db.settled rows cache).writeRoute r := by
  have hrts : (db.routes.upsert r).modify (db.flushRow rows) (db.key_flushRow rows) =
      (db.routes.modify (db.flushRow rows) (db.key_flushRow rows)).upsert r := by
    rw [modify_upsert, flushRow_of_key_ne h]
  unfold writeRoute
  rw [db.find?_settled_routes_of_key_ne rows cache h]
  show { (db.writeRoute r).settled rows cache with
    routes := (db.routes.upsert r).modify _ (db.key_flushRow rows) } = _
  rw [hrts]
  rfl

theorem upsertRoute_settled (p : RouteParams κ) (h : ∀ r ∈ rows, p.key ≠ r.key) :
    (db.settled rows cache).upsertRoute p =
      (db.upsertRoute p).map fun x => (x.1.settled rows cache, x.2) := by
  have howns : ∀ partition scope connection epoch, (db.settled rows cache).ownsScope partition scope
      connection epoch = db.ownsScope partition scope connection epoch := fun _ _ _ _ => rfl
  have hvalid : (db.settled rows cache).validateInsert p.key = db.validateInsert p.key := rfl
  have hwrite := db.settled_writeRoute rows cache p.row h
  unfold upsertRoute
  rw [howns, hvalid, db.find?_settled_routes_of_key_ne rows cache h]
  split
  · rfl
  · split
    · rfl
    · split
      · split
        · rw [← hwrite]
          rfl
        · rfl
      · rw [← hwrite]
        rfl

theorem announceRoute_settled (m : Mutation κ) (scope : Scope κ) (partition : RoutePartition)
    (route : Route κ) (previous : Option (RouteRefs κ)) (includeDeltas : Bool)
    (h : ∀ r ∈ rows, (m.routeParams scope partition route).key ≠ r.key) :
    (db.settled rows cache).announceRoute m scope partition route previous includeDeltas =
      (db.announceRoute m scope partition route previous includeDeltas).map fun x =>
        (x.1.settled rows cache, x.2) := by
  have hprev : ∀ key, (db.settled rows cache).previousRow key previous includeDeltas =
      db.previousRow key previous includeDeltas := by
    intro key
    unfold previousRow
    rw [findCurrentRoute_settled]
  unfold announceRoute
  dsimp only
  rw [hprev, upsertRoute_settled db rows cache _ h]
  cases db.upsertRoute _ with
  | error e => rfl
  | ok x => rfl

end Settled

end Db

namespace Work

/-- The refreshes that the batch put off. -/
def pending (w : Work κ) : List (RouteParams κ) := w.cache.deferredMetadataRefresh.getD []

def settle (w : Work κ) : Db κ := w.db.settled w.pending w.cache

end Work

/-! ## Writing a source or a connection again -/

namespace Db

def sourceRow (db : Db κ) (source : Source κ) : Source κ :=
  match db.sources.find? source.id with
  | some old => old.merge source
  | none => source

theorem upsertSource_eq (db : Db κ) (source : Source κ) :
    db.upsertSource source = { db with sources := db.sources.upsert (db.sourceRow source) } := by
  unfold upsertSource sourceRow
  cases db.sources.find? source.id <;> rfl

theorem id_sourceRow (db : Db κ) (source : Source κ) : (db.sourceRow source).id = source.id := by
  unfold sourceRow
  cases h : db.sources.find? source.id with
  | none => rfl
  | some old =>
    have hid : old.id = source.id := key_of_find? h
    exact hid

theorem merge_sourceRow (db : Db κ) (h : source'.signature = source.signature) :
    (db.sourceRow source).merge source' = db.sourceRow source := by
  unfold sourceRow
  cases db.sources.find? source.id with
  | none => exact Source.merge_self h
  | some old => exact Source.merge_merge h old

theorem upsertSource_of_merge {db : Db κ} {source row : Source κ}
    (hrow : db.sources.find? source.id = some row) (hmerge : row.merge source = row) :
    db.upsertSource source = db := by
  rw [upsertSource_eq, sourceRow, hrow]
  show { db with sources := db.sources.upsert (row.merge source) } = _
  rw [hmerge, upsert_self hrow]

def connectionRow (db : Db κ) (connection : Connection κ) (source : κ) (eventAtMs : ℤ) :
    ConnectionRow κ :=
  match db.connections.find? connection.id with
  | some old => old.merge connection source
  | none => connection.row source eventAtMs

section

variable (db : Db κ) (connection : Connection κ) (source : κ) (eventAtMs : ℤ)

theorem upsertConnection_eq : db.upsertConnection connection source eventAtMs = { db with
    connections := db.connections.upsert (db.connectionRow connection source eventAtMs) } := by
  unfold upsertConnection connectionRow
  cases db.connections.find? connection.id <;> rfl

theorem id_connectionRow : (db.connectionRow connection source eventAtMs).id = connection.id := by
  unfold connectionRow
  cases h : db.connections.find? connection.id with
  | none => rfl
  | some old =>
    have hid : old.id = connection.id := key_of_find? h
    exact hid

theorem lastSequence_connectionRow : (db.connectionRow connection source eventAtMs).lastSequence =
    db.lastSequenceOf connection.id := by
  unfold connectionRow lastSequenceOf
  cases db.connections.find? connection.id <;> rfl

theorem find?_upsertConnection (id : κ) :
    (db.upsertConnection connection source eventAtMs).connections.find? id =
      if connection.id = id then some (db.connectionRow connection source eventAtMs)
      else db.connections.find? id := by
  rw [upsertConnection_eq]
  rw [find?_upsert, id_connectionRow]

end

theorem merge_connectionRow (db : Db κ) {source source' : κ}
    (h : connection'.signature source' = connection.signature source) (eventAtMs : ℤ) :
    (db.connectionRow connection source eventAtMs).merge connection' source' =
      db.connectionRow connection source eventAtMs := by
  unfold connectionRow
  cases db.connections.find? connection.id with
  | none => exact Connection.merge_row h eventAtMs
  | some old => exact ConnectionRow.merge_merge h old

theorem upsertConnection_of_merge {db : Db κ} {connection : Connection κ} {source : κ}
    {row : ConnectionRow κ} (eventAtMs : ℤ) (hrow : db.connections.find? connection.id = some row)
    (hmerge : row.merge connection source = row) :
    db.upsertConnection connection source eventAtMs = db := by
  rw [upsertConnection_eq, connectionRow, hrow]
  show { db with connections := db.connections.upsert (row.merge connection source) } = _
  rw [hmerge, upsert_self hrow]

/-! ## Writing a scope again -/

variable (db : Db κ) (p : ScopeParams κ)

theorem find?_upsertScope_of_ne {id : κ} (h : id ≠ p.scope.id) :
    (db.upsertScope p).scopes.find? id = db.scopes.find? id := by
  unfold upsertScope
  cases hs : db.scopes.find? p.scope.id with
  | none =>
    rw [find?_upsert]
    exact if_neg fun he => h he.symm
  | some scope =>
    dsimp only
    have hid : scope.id = p.scope.id := key_of_find? hs
    split
    · rw [find?_upsert]
      exact if_neg fun he => h (he.symm.trans hid)
    · rfl

theorem find?_upsertScope : (db.upsertScope p).scopes.find? p.scope.id =
    match db.scopes.find? p.scope.id with
    | some scope =>
      if scope.partition = p.partition ∧ scope.source = p.source then
        some (db.updatedScope scope p)
      else some scope
    | none => some (newScope p) := by
  unfold upsertScope
  cases hs : db.scopes.find? p.scope.id with
  | none =>
    rw [find?_upsert]
    exact if_pos rfl
  | some scope =>
    dsimp only
    have hid : scope.id = p.scope.id := key_of_find? hs
    split
    · rw [find?_upsert]
      exact if_pos hid
    · exact hs

variable {db : Db κ} {p : ScopeParams κ}

theorem validation_upsertScope {id : κ} {row : ScopeRow κ} (h : db.scopes.find? id = some row) :
    ∃ row', (db.upsertScope p).scopes.find? id = some row' ∧ row'.validation = row.validation := by
  by_cases hid : id = p.scope.id
  · subst hid
    have hfind := db.find?_upsertScope p
    rw [h] at hfind
    dsimp only at hfind
    split at hfind
    · exact ⟨_, hfind, rfl⟩
    · exact ⟨row, hfind, rfl⟩
  · exact ⟨row, by rw [db.find?_upsertScope_of_ne p hid, h], rfl⟩

/-- A connection owns the scope, in the epoch or a later one, or it does not take it over. -/
def ScopeSettled (db : Db κ) (scopeId connection : κ) (epoch : ℤ) : Prop :=
  ∃ scope, db.scopes.find? scopeId = some scope ∧
    (scope.lastConnection = connection ∧ epoch ≤ scope.currentEpoch ∨
      scope.lastConnection ≠ connection ∧ db.replacesScopeConnection scope connection = false)

variable (scope : ScopeRow κ)

theorem replacesScopeConnection_self :
    db.replacesScopeConnection scope scope.lastConnection = false := by
  unfold replacesScopeConnection
  simp

/-- The owner that a write leaves. -/
theorem updatedScope_cases (p : ScopeParams κ) :
    ((db.updatedScope scope p).lastConnection = p.connection ∧
        (db.updatedScope scope p).currentEpoch = p.scope.epoch ∧
        db.replacesScopeConnection scope p.connection = true) ∨
      (scope.lastConnection = p.connection ∧
        (db.updatedScope scope p).lastConnection = p.connection ∧
        (db.updatedScope scope p).currentEpoch = max scope.currentEpoch p.scope.epoch) ∨
      (scope.lastConnection ≠ p.connection ∧
        db.replacesScopeConnection scope p.connection = false ∧
        db.updatedScope scope p = scope) := by
  cases hr : db.replacesScopeConnection scope p.connection with
  | true =>
    left
    unfold updatedScope acceptsScopeConnection
    simp [hr]
  | false =>
    right
    by_cases hs : scope.lastConnection = p.connection
    · left
      unfold updatedScope
      simp [hr, hs]
    · right
      refine ⟨hs, rfl, ?_⟩
      unfold updatedScope acceptsScopeConnection acceptsScopeProgress
      simp [hr, hs]

theorem scopeSettled_upsertScope (h : ∀ scope, db.scopes.find? p.scope.id = some scope →
      scope.partition = p.partition ∧ scope.source = p.source) :
    (db.upsertScope p).ScopeSettled p.scope.id p.connection p.scope.epoch := by
  have hfind := db.find?_upsertScope p
  cases hs : db.scopes.find? p.scope.id with
  | none =>
    rw [hs] at hfind
    exact ⟨newScope p, hfind, .inl ⟨rfl, le_rfl⟩⟩
  | some scope =>
    rw [hs] at hfind
    dsimp only at hfind
    rw [if_pos (h scope hs)] at hfind
    refine ⟨_, hfind, ?_⟩
    rcases db.updatedScope_cases scope p with ⟨howner, hepoch, -⟩ | ⟨-, howner, hepoch⟩ |
      ⟨hne, hnot, hsame⟩
    · exact .inl ⟨howner, hepoch.ge⟩
    · exact .inl ⟨howner, hepoch ▸ le_max_right ..⟩
    · right
      rw [hsame]
      exact ⟨hne, hnot⟩

theorem ScopeSettled.updatedScope {scope : ScopeRow κ}
    (h : scope.lastConnection = p.connection ∧ p.scope.epoch ≤ scope.currentEpoch ∨
      scope.lastConnection ≠ p.connection ∧
        db.replacesScopeConnection scope p.connection = false) :
    (db.updatedScope scope p).lastConnection = scope.lastConnection ∧
      (db.updatedScope scope p).currentEpoch = scope.currentEpoch := by
  rcases db.updatedScope_cases scope p with ⟨-, -, hr⟩ | ⟨hs, howner, hepoch⟩ | ⟨-, -, hsame⟩
  · rcases h with ⟨hs, -⟩ | ⟨-, hnot⟩
    · rw [← hs, replacesScopeConnection_self] at hr
      cases hr
    · rw [hnot] at hr
      cases hr
  · rcases h with ⟨-, hle⟩ | ⟨hne, -⟩
    · exact ⟨howner.trans hs.symm, hepoch.trans (max_eq_left hle)⟩
    · exact absurd hs hne
  · rw [hsame]
    exact ⟨rfl, rfl⟩

theorem ScopeSettled.ownsScope_upsertScope
    (h : db.ScopeSettled p.scope.id p.connection p.scope.epoch) (partition : RoutePartition)
    (connection : κ) (epoch : ℤ) :
    (db.upsertScope p).ownsScope partition p.scope.id connection epoch =
      db.ownsScope partition p.scope.id connection epoch := by
  obtain ⟨_, hs, hcases⟩ := h
  have hfind := db.find?_upsertScope p
  rw [hs] at hfind
  dsimp only at hfind
  obtain ⟨howner, hepoch⟩ := ScopeSettled.updatedScope hcases
  unfold ownsScope
  rw [hfind, hs]
  split
  · rename_i hsome
    split at hsome
    · rw [← Option.some_inj.mp hsome, howner, hepoch]
      rfl
    · rw [← Option.some_inj.mp hsome]
  · rename_i hnone
    split at hnone <;> cases hnone

end Db

end Bmp.Store
