import NetNexus.Bmp.Proofs.StoreInvariantProofs

/-!
# Scope writes that a batch leaves out

A batch leaves out a scope write with the signature that it wrote last. Where the mutations are
`calm`, the write would have changed nothing.
-/

namespace Bmp.Store

open List

variable {κ : Type}

/-- The event leaves scopes as they are, once the scope of the mutation is written. -/
def EventType.keepsScope : EventType κ → Bool
  | .scopeOpen | .scopeEor | .scopeTimeout | .connectionClose => false
  | _ => true

/-- A row as a write leaves it, so that the next write with the same signature changes nothing. -/
structure ScopeRow.Absorbs (s : ScopeRow κ) (p : ScopeParams κ) : Prop where
  owner : s.lastConnection = p.connection
  epoch : p.scope.epoch ≤ s.currentEpoch
  vrfName : p.scope.vrfName.or s.vrfName = s.vrfName
  state : s.currentEpoch ≤ p.scope.epoch → s.state = p.state
  staleReason : s.currentEpoch ≤ p.scope.epoch →
    (if p.state.isStale then p.reason.or s.staleReason else p.reason) = s.staleReason
  staleSinceMs : s.currentEpoch ≤ p.scope.epoch → s.staleSinceMs.isSome = p.state.isStale
  notSyncing : s.currentEpoch ≤ p.scope.epoch → p.state ≠ .syncing → s.refreshStartedMs = none
  refreshStartedMs : s.currentEpoch ≤ p.scope.epoch → p.scope.state = some .syncing →
    s.refreshStartedMs.isSome
  cleanupPendingEpoch : s.currentEpoch ≤ p.scope.epoch → p.state.isStale = true →
    s.cleanupPendingEpoch = none

theorem ScopeParams.isSome_staleSinceMs (p : ScopeParams κ) :
    p.staleSinceMs.isSome = p.state.isStale := by
  unfold staleSinceMs state
  rcases p.scope.state with _ | _ | _ | _ | _ <;> rfl

theorem ScopeParams.isSome_refreshStartedMs {p : ScopeParams κ}
    (h : p.scope.state = some .syncing) : p.refreshStartedMs.isSome := by
  unfold refreshStartedMs
  rw [if_pos h]
  rfl

theorem Db.absorbs_newScope (p : ScopeParams κ) : (newScope p).Absorbs p where
  owner := rfl
  epoch := le_rfl
  vrfName := by simp [newScope]
  state _ := rfl
  staleReason _ := by simp [newScope]
  staleSinceMs _ := p.isSome_staleSinceMs
  notSyncing _ h := by
    exact if_neg fun hs => h (by rw [ScopeParams.state, hs]; rfl)
  refreshStartedMs _ := ScopeParams.isSome_refreshStartedMs
  cleanupPendingEpoch _ _ := rfl

/-- The scope that a mutation writes. -/
def Mutation.write? (m : Mutation κ) : Option (ScopeParams κ) :=
  match m.scope, m.partition with
  | some scope, .ok (some p) => some (m.scopeParams scope p)
  | _, _ => none

variable {m : Mutation κ}

theorem Mutation.write?_eq {scope : Scope κ} {partition : RoutePartition}
    (hs : m.scope = some scope)
    (hp : m.partition = .ok (some partition)) :
    m.write? = some (m.scopeParams scope partition) := by
  unfold Mutation.write?
  rw [hs, hp]

theorem Mutation.partition_ne_none {scope : Scope κ} (hs : m.scope = some scope) :
    m.partition ≠ .ok none := by
  unfold Mutation.partition
  rw [hs]
  cases m.route with
  | none =>
    dsimp only
    cases resolveBmpRoutePartition scope.kind scope.afi scope.safi <;> nofun
  | some route =>
    dsimp only
    cases assertBmpRouteMatchesScope route.identity.afi route.identity.safi scope.kind scope.afi
      scope.safi <;> nofun

theorem Mutation.action_ne_close (h : m.eventType ≠ .connectionClose) :
    m.eventType.action ≠ .close := by
  cases hm : m.eventType <;> simp_all [EventType.action]

variable [DecidableEq κ]

namespace Db

variable {db : Db κ}

theorem absorbs_updatedScope {s : ScopeRow κ} {p : ScopeParams κ}
    (hkeeps : p.eventType.keepsScope = true)
    (haccepts : db.acceptsScopeConnection s p.connection = true) :
    (db.updatedScope s p).Absorbs p := by
  have htimeout : p.scopeTimeout = false := by
    unfold ScopeParams.scopeTimeout
    cases hp : p.eventType <;> simp_all [EventType.keepsScope]
  have hepoch : p.scope.epoch ≤ (db.updatedScope s p).currentEpoch ∧
      ((db.updatedScope s p).currentEpoch ≤ p.scope.epoch →
        db.acceptsScopeProgress s p = true) := by
    unfold acceptsScopeConnection at haccepts
    unfold updatedScope acceptsScopeProgress
    cases hr : db.replacesScopeConnection s p.connection <;> simp_all
  have hprogress := hepoch.2
  refine ⟨?_, hepoch.1, ?_, fun h => ?_, fun h => ?_, fun h => ?_, fun h hstate => ?_,
    fun h hstate => ?_, fun h hstale => ?_⟩
  · simp [updatedScope, haccepts]
  · simp only [updatedScope, haccepts, if_true]
    cases p.scope.vrfName <;> rfl
  · simp [updatedScope, hprogress h]
  · simp only [updatedScope, hprogress h, Bool.true_and, if_true]
    cases p.state.isStale <;> cases p.reason <;> rfl
  · have hsome := p.isSome_staleSinceMs
    simp only [updatedScope, hprogress h, Bool.true_and, if_true]
    split
    · simp_all
    · exact hsome
  · simp [updatedScope, hprogress h, hstate]
  · have hsome := ScopeParams.isSome_refreshStartedMs hstate
    have hs : p.state = .syncing := by rw [ScopeParams.state, hstate]; rfl
    simp only [updatedScope, hprogress h, Bool.not_true, hs]
    split
    · simp_all
    · split
      · simp_all
      · split
        · exact hsome
        · rw [Option.isSome_or, hsome, Bool.or_true]
  · simp [updatedScope, hprogress h, hstale]

theorem updatedScope_of_absorbs {s : ScopeRow κ} {p p' : ScopeParams κ} (h : s.Absorbs p)
    (hsig : p'.signature = p.signature) (hstate : p'.scope.state = p.scope.state)
    (hkeeps : p.eventType.keepsScope = true) : db.updatedScope s p' = s := by
  obtain ⟨scope, source, partition, connection, eventType, reason, eventAtMs⟩ := p
  obtain ⟨scope', source', partition', connection', eventType', reason', eventAtMs'⟩ := p'
  simp only [ScopeParams.signature, ScopeSignature.mk.injEq] at hsig hstate hkeeps
  obtain ⟨rfl, rfl, hepoch, -, rfl, hvrf, rfl⟩ := hsig
  have hreset : eventType' ≠ .scopeOpen := by rintro rfl; cases hkeeps
  obtain ⟨rfl, hle, hname, hst, hreason, hsince, hnot, hrefresh, hclean⟩ := h
  have hr := db.replacesScopeConnection_self s
  have hlt : ¬ s.currentEpoch < scope.epoch := not_lt.mpr hle
  have hmax : max s.currentEpoch scope.epoch = s.currentEpoch := max_eq_left hle
  by_cases hcur : s.currentEpoch ≤ scope.epoch
  · have hnone : ∀ o : Option ℤ, o.isSome = true → ∀ o', o.or o' = o := by
      rintro (_ | _) h o'
      · cases h
      · rfl
    unfold updatedScope acceptsScopeConnection
    rcases hs : scope.state with _ | _ | _ | _ | _ <;>
      simp_all [ScopeParams.resetRefresh, ScopeParams.state, ScopeParams.staleSinceMs,
        ScopeParams.refreshStartedMs, ScopeState.isStale] <;>
      (cases s; simp_all [not_lt.mpr hle])
  · have hprogress : db.acceptsScopeProgress s ⟨scope', source', partition', s.lastConnection,
        eventType', reason', eventAtMs'⟩ = false := by
      unfold acceptsScopeProgress
      simp [hr, hepoch, hcur]
    unfold updatedScope acceptsScopeConnection
    simp [hprogress, hr, hepoch, hvrf, hlt, hmax, ScopeParams.resetRefresh, hreset, hname]

/-! ## Writes that change nothing -/

/-- Writing the scope again with the same signature changes nothing: the connection has the scope as
the write leaves it, or does not take it over. -/
def Idle (db : Db κ) (p : ScopeParams κ) : Prop :=
  (db.connections.find? p.connection).isSome ∧ ∃ s, db.scopes.find? p.scope.id = some s ∧
    (s.Absorbs p ∨
      s.lastConnection ≠ p.connection ∧ db.replacesScopeConnection s p.connection = false)

variable {p p' : ScopeParams κ} {includeDeltas : Bool} {db' : Db κ}

theorem Idle.upsertScope (h : db.Idle p) (hkeeps : p.eventType.keepsScope = true)
    (hid : p'.scope.id = p.scope.id) (hsig : p'.signature = p.signature)
    (hstate : p'.scope.state = p.scope.state) : db.upsertScope p' = db := by
  obtain ⟨-, s, hs, hcases⟩ := h
  have hsame : db.updatedScope s p' = s := by
    rcases hcases with habs | ⟨hne, hnot⟩
    · exact updatedScope_of_absorbs habs hsig hstate hkeeps
    · have hconn : p'.connection = p.connection := congrArg ScopeSignature.connection hsig
      rw [← hconn] at hne hnot
      rcases db.updatedScope_cases s p' with ⟨-, -, hr⟩ | ⟨ho, -, -⟩ | ⟨-, -, hsame⟩
      · rw [hnot] at hr
        cases hr
      · exact absurd ho hne
      · exact hsame
  unfold Db.upsertScope
  rw [hid, hs]
  dsimp only
  rw [hsame, Table.upsert_self hs, ite_self]

theorem idle_upsertScope (hkeeps : p.eventType.keepsScope = true)
    (hconn : (db.connections.find? p.connection).isSome)
    (hvalid : ∀ s, db.scopes.find? p.scope.id = some s →
      s.partition = p.partition ∧ s.source = p.source) : (db.upsertScope p).Idle p := by
  refine ⟨hconn, ?_⟩
  have hfind := db.find?_upsertScope p
  cases hs : db.scopes.find? p.scope.id with
  | none =>
    rw [hs] at hfind
    exact ⟨_, hfind, .inl (absorbs_newScope p)⟩
  | some s =>
    rw [hs] at hfind
    dsimp only at hfind
    rw [if_pos (hvalid s hs)] at hfind
    refine ⟨_, hfind, ?_⟩
    cases haccepts : db.acceptsScopeConnection s p.connection with
    | true => exact .inl (absorbs_updatedScope hkeeps haccepts)
    | false =>
      simp only [acceptsScopeConnection, Bool.or_eq_false_iff, decide_eq_false_iff_not]
        at haccepts
      rcases db.updatedScope_cases s p with ⟨-, -, hr⟩ | ⟨ho, -, -⟩ | ⟨hne, hnot, hsame⟩
      · rw [haccepts.2] at hr
        cases hr
      · exact absurd ho haccepts.1
      · rw [hsame]
        exact .inr ⟨hne, hnot⟩

theorem Idle.congr (h : db.Idle p) (hconns : db'.connections = db.connections)
    (hscs : db'.scopes.find? p.scope.id = db.scopes.find? p.scope.id) : db'.Idle p := by
  have hr : ∀ s c, db'.replacesScopeConnection s c = db.replacesScopeConnection s c := by
    intro s c
    unfold replacesScopeConnection generationOf isOpen
    rw [hconns]
  unfold Idle
  simp only [hr]
  rw [hconns, hscs]
  exact h

/-- A connection that is there keeps its generation and stays open; one that is not there comes
with the generation of the mutation. -/
theorem connection_resolveContext (db : Db κ) (m : Mutation κ) (id : κ) :
    (db.resolveContext m).generationOf id = db.generationOf id ∧
        (db.resolveContext m).isOpen id = db.isOpen id ∨
      db.connections.find? id = none ∧
        (db.resolveContext m).generationOf id = m.connection.generation ∧
        (db.resolveContext m).isOpen id = true := by
  obtain ⟨f, hf, hfind⟩ := db.find?_resolveContext m id
  unfold generationOf isOpen
  rw [hfind]
  by_cases hid : m.connection.id = id
  · subst hid
    rw [if_pos rfl, connectionRow]
    cases db.connections.find? m.connection.id with
    | none => exact .inr ⟨rfl, hf _⟩
    | some row => exact .inl (hf _)
  · rw [if_neg hid]
    cases db.connections.find? id with
    | none => exact .inl ⟨rfl, rfl⟩
    | some row => exact .inl (hf row)

theorem replacesScopeConnection_resolveContext (hgen : 0 ≤ m.connection.generation)
    {s : ScopeRow κ} {c : κ} (hconn : (db.connections.find? c).isSome)
    (h : db.replacesScopeConnection s c = false) :
    (db.resolveContext m).replacesScopeConnection s c = false := by
  have hsame := (db.connection_resolveContext m c).resolve_right fun hnone => by
    rw [hnone.1] at hconn
    cases hconn
  unfold replacesScopeConnection at h ⊢
  rw [hsame.1, hsame.2]
  rcases db.connection_resolveContext m s.lastConnection with ⟨hg, ho⟩ | ⟨hnone, hg, ho⟩
  · rw [hg, ho]
    exact h
  · -- the owner was not there, so that the connection has no higher generation than it
    rw [ho]
    rw [generationOf, hnone] at h
    simp at h ⊢
    intro hne
    have := (h hne).1
    omega

theorem Idle.resolveContext (h : db.Idle p) (hgen : 0 ≤ m.connection.generation) :
    (db.resolveContext m).Idle p := by
  obtain ⟨hconn, s, hs, hcases⟩ := h
  refine ⟨?_, s, (db.resolveContext_frame m).1 ▸ hs, hcases.imp_right fun h =>
    ⟨h.1, replacesScopeConnection_resolveContext hgen hconn h.2⟩⟩
  obtain ⟨f, -, hfind⟩ := db.find?_resolveContext m p.connection
  rw [hfind, Option.isSome_map]
  split
  · rfl
  · exact hconn

/-- An event but for a close changes no scope but that of the mutation, and that only if it does not
keep it. -/
theorem effect_frame (he : db.Effect m includeDeltas db') (hclose : m.eventType.action ≠ .close)
    {id : κ} (hid : m.eventType.keepsScope = true ∨ ∀ scope, m.scope = some scope → scope.id ≠ id) :
    db'.connections = db.connections ∧ db'.scopes.find? id = db.scopes.find? id := by
  have hmodify : ∀ {f : ScopeRow κ → ScopeRow κ} (hf : ∀ s, (f s).id = s.id),
      (∀ s, s.id = id → f s = s) → (db.scopes.modify f hf).find? id = db.scopes.find? id := by
    intro f hf hsame
    rw [Table.find?_modify]
    cases hs : db.scopes.find? id with
    | none => rfl
    | some s => rw [Option.map_some, hsame s (Table.key_of_find? hs)]
  cases he with
  | nothing | refreshed | rejected | announced | ignored | withdrawn | sampled => exact ⟨rfl, rfl⟩
  | markedEor hscope haction | markedTimeout hscope haction =>
    refine ⟨rfl, hmodify (fun s => by split <;> rfl) fun s hs => if_neg fun hif => ?_⟩
    rcases hid with hkeeps | hne
    · cases hm : m.eventType <;> simp_all [EventType.keepsScope, EventType.action]
    · exact hne _ hscope (hif.1.symm.trans hs)
  | closed haction => exact absurd haction hclose
end Db

/-! ## Repeated writes -/

namespace ScopeParams

/-- A batch may leave out the second write, since it has the signature of the first one. -/
def sameWrite (p p' : ScopeParams κ) : Bool :=
  p'.scope.id = p.scope.id && p'.signature = p.signature

/-- A scope write is repeated only by events that leave the scope as it is, that give its state as
the write does, and that no `connection_close` comes before. -/
def undisturbed (p : ScopeParams κ) : List (Mutation κ) → Bool
  | [] => true
  | m :: ms =>
    (m.write?.all fun p' => !p.sameWrite p' ||
      p.eventType.keepsScope && p'.scope.state = p.scope.state) &&
    if m.eventType = .connectionClose then ms.all fun m => m.write?.all (!p.sameWrite ·)
    else p.undisturbed ms

end ScopeParams

/-- No scope write of the mutations disturbs a later one, and no generation is negative. -/
def calm : List (Mutation κ) → Bool
  | [] => true
  | m :: ms => 0 ≤ m.connection.generation && m.write?.all (·.undisturbed ms) && calm ms

namespace Db

variable {db db' : Db κ} {ms : List (Mutation κ)} {includeDeltas : Bool}
  {scopes : κ → Option (ScopeSignature κ)} {p : ScopeParams κ}

/-- Repeating the write changes nothing, or the mutations do not repeat it. -/
def Remembered (db : Db κ) (p : ScopeParams κ) (ms : List (Mutation κ)) : Prop :=
  (p.eventType.keepsScope = true → db.Idle p) ∧ p.undisturbed ms = true ∨
    ∀ m ∈ ms, m.write?.all (!p.sameWrite ·) = true

/-- The signatures that a batch remembers are those of such writes. -/
def Remembers (db : Db κ) (scopes : κ → Option (ScopeSignature κ)) (ms : List (Mutation κ)) :
    Prop :=
  ∀ id signature, scopes id = some signature →
    ∃ p, p.scope.id = id ∧ p.signature = signature ∧ db.Remembered p ms

theorem Remembered.tail (h : db.Remembered p (m :: ms))
    (hidle : p.eventType.keepsScope = true → m.eventType ≠ .connectionClose → db.Idle p →
      db'.Idle p) : db'.Remembered p ms := by
  rcases h with ⟨hkeeps, hund⟩ | hnot
  · have hnext := (Bool.and_eq_true_iff.mp hund).2
    by_cases hclose : m.eventType = .connectionClose
    · rw [if_pos hclose, all_eq_true] at hnext
      exact .inr hnext
    · rw [if_neg hclose] at hnext
      exact .inl ⟨fun hk => hidle hk hclose (hkeeps hk), hnext⟩
  · exact .inr fun m' hm' => hnot m' (mem_cons_of_mem _ hm')

theorem Remembers.congr (h : db.Remembers scopes ms) (hconns : db'.connections = db.connections)
    (hscs : db'.scopes = db.scopes) : db'.Remembers scopes ms := by
  intro id signature hsig
  obtain ⟨p, hid, hs, hrem⟩ := h id signature hsig
  exact ⟨p, hid, hs, hrem.imp_left fun hrem =>
    ⟨fun hkeeps => (hrem.1 hkeeps).congr hconns (by rw [hscs]), hrem.2⟩⟩

/-- A write that is left out changes nothing. -/
theorem Remembers.idle (h : db.Remembers scopes (m :: ms)) (hgen : 0 ≤ m.connection.generation)
    (hp : m.write? = some p) (hskip : scopes p.scope.id = some p.signature) :
    (db.resolveContext m).upsertScope p = db.resolveContext m := by
  obtain ⟨p₀, hid, hsig, hrem⟩ := h _ _ hskip
  have hsame : p₀.sameWrite p = true := by
    unfold ScopeParams.sameWrite
    simp [hid, hsig]
  rcases hrem with ⟨hidle, hund⟩ | hnot
  · have hhead := (Bool.and_eq_true_iff.mp hund).1
    rw [hp, Option.all_some, hsame, Bool.not_true, Bool.false_or, Bool.and_eq_true_iff,
      decide_eq_true_eq] at hhead
    exact ((hidle hhead.1).resolveContext hgen).upsertScope hhead.1 hid.symm hsig.symm hhead.2
  · have hnone := hnot m mem_cons_self
    rw [hp, Option.all_some, hsame] at hnone
    cases hnone

/-- What changes nothing when it is repeated stays so, unless the mutation writes the same scope or
closes a connection. -/
theorem Idle.applied (h : db.Idle p) (hgen : 0 ≤ m.connection.generation)
    (hclose : m.eventType ≠ .connectionClose) {partition : Option RoutePartition} {skip : Bool}
    {written : Db κ} (hp : m.partition = .ok partition)
    (hscope : (db.resolveContext m).resolveScope m partition skip = .ok written)
    (he : written.Effect m includeDeltas db')
    (hother : skip = true ∧ m.eventType.keepsScope = true ∨
      ∀ scope, m.scope = some scope → scope.id ≠ p.scope.id) : db'.Idle p := by
  have hctx := h.resolveContext hgen
  have hwr : written.Idle p := by
    rcases resolveScope_ok hscope with ⟨rfl, -⟩ | ⟨scope, q, hs, rfl, -, rfl, -⟩
    · exact hctx
    · cases skip with
      | true => exact hctx
      | false =>
        rcases hother with ⟨hskip, -⟩ | hne
        · cases hskip
        · exact hctx.congr rfl (find?_upsertScope_of_ne _ _ (hne scope hs).symm)
  obtain ⟨hconns, hscs⟩ := effect_frame he (Mutation.action_ne_close hclose)
    (hother.imp_left And.right)
  exact hwr.congr hconns hscs

/-- The write of the mutation itself changes nothing when it is repeated. -/
theorem idle_applied {scope : Scope κ} {q : RoutePartition} (hs : m.scope = some scope)
    (hkeeps : m.eventType.keepsScope = true) {written : Db κ}
    (hscope : (db.resolveContext m).resolveScope m (some q) false = .ok written)
    (he : written.Effect m includeDeltas db') : db'.Idle (m.scopeParams scope q) := by
  rcases resolveScope_ok hscope with ⟨-, hnone⟩ | ⟨_, _, hs', hq, hval, rfl, -⟩
  · rcases hnone with hnone | hnone
    · rw [hs] at hnone
      cases hnone
    · cases hnone
  · rw [hs] at hs'
    cases hs'
    cases hq
    have hclose : m.eventType.action ≠ .close := Mutation.action_ne_close fun hm => by
      rw [hm] at hkeeps
      cases hkeeps
    obtain ⟨f, -, hfind⟩ := db.find?_resolveContext m m.connection.id
    have hconn : ((db.resolveContext m).connections.find? m.connection.id).isSome := by
      rw [hfind, if_pos rfl]
      rfl
    have hwr : ((db.resolveContext m).upsertScope (m.scopeParams scope q)).Idle
        (m.scopeParams scope q) :=
      idle_upsertScope hkeeps hconn fun s hs => ⟨congrArg ScopeValidation.partition (hval s hs),
        congrArg ScopeValidation.source (hval s hs)⟩
    obtain ⟨hconns, hscs⟩ := effect_frame he hclose (.inl hkeeps)
    exact hwr.congr hconns hscs

/-- What a batch remembers of scopes after a mutation. -/
def remembered (db : Db κ) (m : Mutation κ) (scopes : κ → Option (ScopeSignature κ)) :
    κ → Option (ScopeSignature κ) :=
  if db.isReplay m then scopes
  else
    match m.write? with
    | some p => Function.update scopes p.scope.id (some p.signature)
    | none => scopes

theorem Remembers.apply {hint : Hint κ} {x : Db κ × Bool × Option (Delta κ)}
    (h : db.Remembers scopes (m :: ms)) (hcalm : calm (m :: ms) = true)
    (hskip : ∀ p, m.write? = some p →
      hint.skipScope = decide (scopes p.scope.id = some p.signature))
    (hx : db.applyFilled m includeDeltas hint = .ok x) :
    x.1.Remembers (db.remembered m scopes) ms := by
  simp only [calm, Bool.and_eq_true, decide_eq_true_eq] at hcalm
  obtain ⟨⟨hgen, hund⟩, -⟩ := hcalm
  unfold remembered
  rcases applyFilled_ok hx with ⟨hrep, rfl⟩ | ⟨hrep, -, partition, written, hp, hscope, he⟩
  · rw [if_pos hrep]
    intro id signature hsig
    obtain ⟨p, hid, hs, hrem⟩ := h id signature hsig
    exact ⟨p, hid, hs, hrem.tail fun _ _ hidle => hidle.congr rfl rfl⟩
  · rw [hrep, if_neg Bool.false_ne_true]
    -- the writes of other scopes, and the same write of this one, stay remembered
    have hold : ∀ p, db.Remembered p (m :: ms) →
        (hint.skipScope = true ∧ p.eventType = m.eventType ∨
          ∀ scope, m.scope = some scope → scope.id ≠ p.scope.id) → x.1.Remembered p ms := by
      intro p hrem hother
      refine hrem.tail fun hkeeps hclose hidle => hidle.applied hgen hclose hp hscope he ?_
      rcases hother with ⟨hskip, hevent⟩ | hne
      · exact .inl ⟨hskip, hevent ▸ hkeeps⟩
      · exact .inr hne
    cases hs : m.scope with
    | none =>
      have hnone : m.write? = none := by
        unfold Mutation.write?
        rw [hs]
      rw [hnone]
      intro id signature hsig
      obtain ⟨p, hid, hs', hrem⟩ := h id signature hsig
      exact ⟨p, hid, hs', hold p hrem (.inr (by simp [hs]))⟩
    | some scope =>
      obtain ⟨q, rfl⟩ : ∃ q, partition = some q := by
        cases partition with
        | some q => exact ⟨q, rfl⟩
        | none => exact absurd hp (Mutation.partition_ne_none hs)
      have hw := Mutation.write?_eq hs hp
      rw [hw] at hund
      rw [hw]
      intro id signature hsig
      dsimp only at hsig
      by_cases hid : id = scope.id
      · subst hid
        have hsig' : (m.scopeParams scope q).signature = signature := by
          simpa [Mutation.scopeParams] using hsig
        by_cases hcached : scopes scope.id = some signature
        · obtain ⟨p, hid, hs', hrem⟩ := h _ signature hcached
          refine ⟨p, hid, hs', hold p hrem (.inl ⟨?_, ?_⟩)⟩
          · rw [hskip _ hw, decide_eq_true_eq, hsig']
            exact hcached
          · exact congrArg ScopeSignature.eventType (hs'.trans hsig'.symm)
        · refine ⟨m.scopeParams scope q, rfl, hsig', .inl ⟨fun hkeeps => ?_, hund⟩⟩
          have hnot : hint.skipScope = false := by
            rw [hskip _ hw, decide_eq_false_iff_not, hsig']
            exact hcached
          rw [hnot] at hscope
          exact idle_applied hs hkeeps hscope he
      · rw [Function.update_of_ne (show id ≠ (m.scopeParams scope q).scope.id from hid)] at hsig
        obtain ⟨p, hid', hs', hrem⟩ := h id signature hsig
        refine ⟨p, hid', hs', hold p hrem (.inr fun scope' hscope' => ?_)⟩
        rw [hs] at hscope'
        cases hscope'
        rw [hid']
        exact Ne.symm hid

end Db

end Bmp.Store
