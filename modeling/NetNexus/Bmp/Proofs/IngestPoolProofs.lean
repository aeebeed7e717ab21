import Mathlib.Algebra.BigOperators.Group.List.Basic
import Mathlib.Data.List.Induction
import NetNexus.Bmp.IngestPool

/-!
# Connections in the pool of parser threads do not mix

While the pool has not failed, the requests of the connection that owns a slot are its handed
results, then the results under way, then the requests under way. A slot is given to another
connection only when nothing is under way.
-/

namespace Bmp.IngestPool

open Function IngestPool.Log IngestPool.Pool List

variable {n : ℕ} {σ A S : Type} {parser : Parser σ A}

/-! ## The worker -/

section

variable (context : Option (Context σ)) (request : Request) (actions : List (Action A))
  (requests : List Request)

theorem replay_append (later : List Request) : replay parser context (requests ++ later) =
    ((replay parser (replay parser context requests).1 later).1,
      (replay parser context requests).2 ++
        (replay parser (replay parser context requests).1 later).2) := by
  induction requests generalizing context with
  | nil => rfl
  | cons _ _ ih => simp [replay, ih]

theorem result_ids (error : Bool) :
    (result parser context request actions error).requestId = request.id ∧
      (result parser context request actions error).token = request.token := by
  unfold result
  split <;> exact ⟨rfl, rfl⟩

theorem answer_ids (context : Context σ) (throws : Bool) :
    (answer parser context request actions throws).2.requestId = request.id ∧
      (answer parser context request actions throws).2.token = request.token := by
  unfold answer
  split <;> exact result_ids ..

theorem handleRequest_ids (parser : Parser σ A) :
    (handleRequest parser context request).2.requestId = request.id ∧
      (handleRequest parser context request).2.token = request.token := by
  unfold handleRequest
  split
  · split <;> exact result_ids _ _ _ _
  · split
    · unfold handleOwned
      split
      · split <;> exact answer_ids _ _ _ _
      · exact answer_ids ..
      · exact answer_ids ..
    · exact result_ids ..

theorem requestIds_replay :
    (replay parser context requests).2.map Result.requestId = requests.map Request.id := by
  induction requests generalizing context with
  | nil => rfl
  | cons _ _ ih => simp [replay, ih, (handleRequest_ids ..).1]

theorem length_replay : (replay parser context requests).2.length = requests.length := by
  simpa using congrArg List.length (@requestIds_replay _ _ parser context requests)

theorem error_result : (result parser context request actions true).error = true := by
  unfold result
  split <;> rfl

end

variable {request : Request} {slots : Fin n → Slot σ A} {record record' : Record n S}
  {message : Result A} {rest : List (Result A)}

/-- A connection that a worker accepts gets a new context, whatever was there before. -/
theorem handleRequest_attach {start : Option (Context σ)} {valid : Bool}
    (hop : request.op = .attach valid) (hstart : ∀ context ∈ start, context.token ≠ request.token)
    (hok : (handleRequest parser start request).2.error = false) :
    handleRequest parser start request = handleRequest parser none request := by
  unfold handleRequest at hok ⊢
  simp only [hop] at hok ⊢
  have hatt : attach parser start request.token valid = none ∨
      attach parser start request.token valid = attach parser none request.token valid := by
    unfold attach
    cases start with
    | none => exact .inr rfl
    | some context =>
      have hne := hstart context rfl
      by_cases hcl : context.closed = true
      · right
        simp [Option.filter, hcl]
      · left
        simp [Option.filter, hcl, hne]
  rcases hatt with hnone | hsame
  · rw [hnone] at hok
    simp [error_result] at hok
  · rw [hsame] at hok ⊢
    cases hnew : attach parser none request.token valid with
    | some _ => rfl
    | none =>
      rw [hnew] at hok
      simp [error_result] at hok

theorem token_closeContext (parser : Parser σ A) (context : Context σ) :
    (context.closeContext parser).1.token = context.token := by
  unfold Context.closeContext
  split
  · rfl
  · dsimp only
    split <;> rfl

theorem token_handleThrow (context : Context σ) :
    (context.handleThrow parser).1.token = context.token := by
  unfold Context.handleThrow
  have hclose := token_closeContext parser { context with failure := true }
  dsimp only
  split
  · unfold Context.markSocketDestroyed
    split <;> exact hclose
  · exact hclose

theorem answer_token {start context : Context σ} {actions : List (Action A)} {throws : Bool}
    (h : (answer parser start request actions throws).1 = some context) :
    context.token = start.token := by
  unfold answer at h
  split at h
  · cases h
    exact token_handleThrow start
  · cases h
    rfl

theorem handleOwned_token {start context : Context σ}
    (h : (handleOwned parser start request).1 = some context) : context.token = start.token := by
  unfold handleOwned at h
  split at h
  · split at h
    · exact answer_token h
    · have htoken := answer_token h
      exact htoken
  · exact (answer_token h).trans (token_closeContext parser start)
  · exact answer_token h

/-- The context of a worker belongs to the request or was there before. -/
theorem handleRequest_token {start : Option (Context σ)} {context : Context σ}
    (h : (handleRequest parser start request).1 = some context) :
    context.token = request.token ∨ ∃ before ∈ start, context.token = before.token := by
  unfold handleRequest at h
  split at h
  · split at h
    · rename_i hatt
      cases h
      unfold attach at hatt
      split at hatt
      · split at hatt
        · rename_i hsame
          cases hatt
          exact .inl hsame
        · simp at hatt
      · split at hatt
        · cases hatt
          exact .inl rfl
        · simp at hatt
    · exact .inr ⟨context, h, rfl⟩
  · split at h
    · rename_i owned howned
      have hmem := (Option.filter_eq_some_iff.mp howned).1
      exact .inr ⟨owned, hmem, handleOwned_token h⟩
    · exact .inr ⟨context, h, rfl⟩

/-! ## The invariant -/

/-- What the pool knows about a connection. -/
structure Log.Tracks (parser : Parser σ A) (log : Log A S) (token : ℕ) (record : Record n S) :
    Prop where
  delivered : log.handedTo token <+: (replay parser none (log.sentBy token)).2
  pending : record.pendingBytes = log.unacknowledged token
  unhanded : ∀ request ∈ (log.sentBy token).drop (log.handedTo token).length,
    request.id ∉ log.acknowledged
  finished : record.closed = true → (log.handedTo token).length = (log.sentBy token).length
  attached : ∃ request, (log.sentBy token).head? = some request ∧
    ∃ valid, request.op = .attach valid
  closing_eq : record.closing = record.closePromise.isSome
  unclosed : (∀ id, record.closePromise ≠ some (some id)) →
    ∀ request ∈ log.sentBy token, request.op ≠ .close
  closes : ∀ id, record.closePromise = some (some id) →
    ∃ before request, log.sentBy token = before ++ [request] ∧ request.op = .close ∧
      request.id = id ∧ ∀ earlier ∈ before, earlier.op ≠ .close

/-- A request with that identifier was sent for the same connection, and not earlier. -/
def Log.Follows (log : Log A S) (request : Request) (id : ℕ) : Prop :=
  ∃ before last after, log.sentBy request.token = before ++ last :: after ∧
    request ∈ before ++ [last] ∧ last.id = id

/-- A fence waits for each request sent before that has not been handed. -/
structure Log.Covers (log : Log A S) (fence : Fence S) : Prop where
  posted_le : fence.posted ≤ log.posted.length
  covered : ∀ request ∈ log.posted.take fence.posted,
    request.token ∉ fence.skipped.map Prod.fst → log.Handed request ∨ none ∈ fence.awaits ∨
      ∃ id, some id ∈ fence.awaits ∧ log.Follows request id
  skipped : ∀ other ∈ fence.skipped, ∃ target, fence.source = some target ∧ other.2 ≠ target

namespace Pool

/-- What is under way for the connection that owns a slot: the requests `a` were handed, `b` have
their results under way. The worker had the context `start` when the connection came. -/
def Busy (parser : Parser σ A) (p : Pool n σ A S) (i : Fin n) (token : ℕ) : Prop :=
  ∃ start a b, p.log.sentBy token = a ++ b ++ (p.slots i).requests ∧
    a.length = (p.log.handedTo token).length ∧
    (p.slots i).results = (replay parser (replay parser start a).1 b).2 ∧
    (p.slots i).context = (replay parser (replay parser start a).1 b).1 ∧
    (∀ context ∈ start, context.token ≠ token) ∧
    (a ≠ [] → replay parser start a = replay parser none a) ∧
    ∀ request ∈ b ++ (p.slots i).requests,
      p.callbacks request.id = some ⟨i, token, request.op, request.op.bytes⟩

/-- A slot and the records agree. -/
structure Wired (parser : Parser σ A) (p : Pool n σ A S) (i : Fin n) : Prop where
  free : (p.slots i).record = none → (p.slots i).requests = [] ∧ (p.slots i).results = []
  token_le : ∀ context ∈ (p.slots i).context, context.token ≤ p.sequence
  busy : ∀ token, (p.slots i).record = some token → p.Busy parser i token

/-- What holds of the pool at any time. -/
structure Inv (parser : Parser σ A) (p : Pool n σ A S) : Prop where
  tokens : ∀ token record, p.records token = some record → token ≤ p.sequence
  posted_le : ∀ request ∈ p.log.posted, request.id ≤ p.sequence
  acknowledged_le : ∀ id ∈ p.log.acknowledged, id ≤ p.sequence
  nodup : (p.log.posted.map Request.id).Nodup
  known : ∀ request ∈ p.log.posted, p.records request.token ≠ none
  handed_known : ∀ handed ∈ p.log.handed, p.records handed.1 ≠ none
  live : ∀ token record, p.records token = some record → record.closed = false →
    (p.slots record.index).record = some token
  owner : ∀ i token, (p.slots i).record = some token →
    ∃ record, p.records token = some record ∧ record.closed = false ∧ record.index = i
  tracks : ∀ token record, p.records token = some record → p.log.Tracks parser token record
  failed : p.failure = true → ∀ id, p.callbacks id = none
  wired : p.failure = false → ∀ i, p.Wired parser i
  fences : ∀ fence ∈ p.log.fences, p.log.Covers fence

end Pool

variable {i : Fin n} {token : ℕ} {record : Record n S} {request : Request}

/-! ## Single changes -/

theorem update_slots {α : Type} {slot : Slot σ A} (g : Slot σ A → α) (hg : g slot = g (slots i))
    (i' : Fin n) : g (Function.update slots i slot i') = g (slots i') := by
  by_cases hi : i' = i
  · subst hi
    rw [update_self, hg]
  · rw [update_of_ne hi]

/-- Two records with the same standing -/
structure Record.Same (record record' : Record n S) : Prop where
  index : record'.index = record.index
  pendingBytes : record'.pendingBytes = record.pendingBytes
  closing : record'.closing = record.closing
  closed : record'.closed = record.closed
  closePromise : record'.closePromise = record.closePromise

theorem Record.Same.refl (record : Record n S) : record.Same record := ⟨rfl, rfl, rfl, rfl, rfl⟩

theorem Log.Tracks.congr {log log' : Log A S} (h : log.Tracks parser token record)
    (hs : record.Same record') (hsent : log'.sentBy token = log.sentBy token)
    (hhand : log'.handedTo token = log.handedTo token)
    (hack : ∀ request ∈ log.sentBy token,
      (request.id ∈ log'.acknowledged ↔ request.id ∈ log.acknowledged)) :
    log'.Tracks parser token record' := by
  have hunack : log'.unacknowledged token = log.unacknowledged token := by
    unfold unacknowledged
    rw [hsent, filter_congr fun request hmem =>
      decide_eq_decide.mpr (not_congr (hack request hmem))]
  refine ⟨?_, ?_, ?_, ?_, ?_, ?_, ?_, ?_⟩ <;>
    simp only [hsent, hhand, hunack, hs.pendingBytes, hs.closed, hs.closing,
      hs.closePromise]
  · exact h.delivered
  · exact h.pending
  · intro request hmem
    rw [hack request (mem_of_mem_drop hmem)]
    exact h.unhanded request hmem
  · exact h.finished
  · exact h.attached
  · exact h.closing_eq
  · exact h.unclosed
  · exact h.closes

theorem Log.Tracks.closePromise_eq_none {log : Log A S} (h : log.Tracks parser token record)
    (hclg : record.closing = false) : record.closePromise = none := by
  rw [h.closing_eq] at hclg
  simpa using hclg

namespace Pool

variable {p p' : Pool n σ A S}

theorem Busy.congr (h : p.Busy parser i token) (hslot : p'.slots i = p.slots i)
    (hsame : p'.log.sentBy token = p.log.sentBy token)
    (hhand : p'.log.handedTo token = p.log.handedTo token)
    (hcb : ∀ request ∈ p.log.sentBy token, p'.callbacks request.id = p.callbacks request.id) :
    p'.Busy parser i token := by
  obtain ⟨start, a, b, hsent, hlen, hress, hctx, hstart, hrep, hcbs⟩ := h
  rw [Busy, hslot, hsame, hhand]
  refine ⟨start, a, b, hsent, hlen, hress, hctx, hstart, hrep, fun request hmem => ?_⟩
  rw [hcb request (by rw [hsent, append_assoc]; exact mem_append_right _ hmem)]
  exact hcbs request hmem

theorem Wired.congr (h : p.Wired parser i) (hslot : p'.slots i = p.slots i)
    (hle : p.sequence ≤ p'.sequence) (hbusy : ∀ token, (p.slots i).record = some token →
      p'.log.sentBy token = p.log.sentBy token ∧ p'.log.handedTo token = p.log.handedTo token ∧
        ∀ request ∈ p.log.sentBy token, p'.callbacks request.id = p.callbacks request.id) :
    p'.Wired parser i := by
  refine ⟨hslot ▸ h.free, ?_, ?_⟩
  · intro context hc
    exact (h.token_le context (hslot ▸ hc)).trans hle
  · intro token htoken
    rw [hslot] at htoken
    obtain ⟨hsame, hhand, hcb⟩ := hbusy token htoken
    exact (h.busy token htoken).congr hslot hsame hhand hcb

/-- Records may change in all but their slot and whether they are closed. -/
def Agree (p p' : Pool n σ A S) : Prop :=
  ∀ token, (p'.records token).map (fun record => (record.index, record.closed)) =
    (p.records token).map fun record => (record.index, record.closed)

theorem Agree.ne_none (h : p.Agree p') (hr : p.records token ≠ none) : p'.records token ≠ none := by
  intro hnone
  have hsame := h token
  rw [hnone] at hsame
  exact hr (Option.map_eq_none_iff.mp hsame.symm)

theorem Agree.some (h : p.Agree p') (hr : p.records token = some record) :
    ∃ record', p'.records token = some record' ∧
      record'.index = record.index ∧ record'.closed = record.closed := by
  have hsame := h token
  rw [hr, Option.map_some, Option.map_eq_some_iff] at hsame
  obtain ⟨record', hr', heq⟩ := hsame
  exact ⟨record', hr', (Prod.ext_iff.mp heq).1, (Prod.ext_iff.mp heq).2⟩

/-- A change that concerns one connection and its slot only. -/
structure Local (p p' : Pool n σ A S) (i : Fin n) (token : ℕ) : Prop where
  sequence : p.sequence ≤ p'.sequence
  slots : ∀ j, j ≠ i → p'.slots j = p.slots j
  records : ∀ t, t ≠ token → p'.records t = p.records t
  failure : p'.failure = p.failure
  sent : ∀ t, t ≠ token → p'.log.sentBy t = p.log.sentBy t
  handed : ∀ t, t ≠ token → p'.log.handedTo t = p.log.handedTo t
  acknowledged : p'.log.acknowledged = p.log.acknowledged
  callbacks : ∀ t, t ≠ token → ∀ request ∈ p.log.sentBy t,
    p'.callbacks request.id = p.callbacks request.id

namespace Inv

theorem start : Inv parser ({} : Pool n σ A S) where
  tokens := by simp
  posted_le := by simp
  acknowledged_le := by simp
  nodup := by simp
  known := by simp
  handed_known := by simp
  live := by simp
  owner := by simp
  tracks := by simp
  failed := by simp
  wired _ i := ⟨fun _ => ⟨rfl, rfl⟩, by simp, by simp⟩
  fences := by simp

variable (h : p.Inv parser)
include h

theorem of_local (hlocal : p.Local p' i token)
    (hown : (p.slots i).record = some token ∨ (p.slots i).record = none ∧ p.records token = none)
    (hrec : p'.records token = some record) (hindex : record.index = i)
    (hslot : (p'.slots i).record = if record.closed then none else some token)
    (htoken : token ≤ p'.sequence)
    (hpost : ∀ request ∈ p'.log.sentBy token, request.id ≤ p'.sequence)
    (hnodup : (p'.log.posted.map Request.id).Nodup) (htrk : p'.log.Tracks parser token record)
    (hfld : p'.failure = true → ∀ id, p'.callbacks id = none)
    (hwired : p'.failure = false → p'.Wired parser i)
    (hfences : ∀ fence ∈ p'.log.fences, p'.log.Covers fence) : p'.Inv parser := by
  have hother : ∀ {j t}, j ≠ i → (p.slots j).record = some t → t ≠ token := by
    rintro j t hj ht rfl
    obtain ⟨r, hr, -, hri⟩ := h.owner j t ht
    rcases hown with hi | ⟨-, hnone⟩
    · obtain ⟨_, hr', -, hri'⟩ := h.owner i t hi
      cases hr.symm.trans hr'
      exact hj (hri.symm.trans hri')
    · cases hr.symm.trans hnone
  have hself : ∀ {r}, p'.records token = some r → record = r :=
    fun hr => Option.some.inj (hrec.symm.trans hr)
  have hknown : ∀ t, (t ≠ token → p.records t ≠ none) → p'.records t ≠ none := by
    intro t ht
    by_cases hne : t = token
    · rw [hne, hrec]
      exact Option.some_ne_none record
    · rw [hlocal.records t hne]
      exact ht hne
  have hmem : ∀ request ∈ p'.log.posted, request.token ≠ token → request ∈ p.log.posted := by
    intro request hmem hne
    have hsent : request ∈ p'.log.sentBy request.token := mem_filter.mpr ⟨hmem, by simp⟩
    rw [hlocal.sent _ hne] at hsent
    exact (mem_filter.mp hsent).1
  constructor
  case tokens =>
    intro t r ht
    by_cases hne : t = token
    · exact hne ▸ htoken
    · exact (h.tokens t r (hlocal.records t hne ▸ ht)).trans hlocal.sequence
  case posted_le =>
    intro request hreq
    by_cases hne : request.token = token
    · exact hpost request (mem_filter.mpr ⟨hreq, by simp [hne]⟩)
    · exact (h.posted_le request (hmem request hreq hne)).trans hlocal.sequence
  case acknowledged_le =>
    rw [hlocal.acknowledged]
    exact fun id hid => (h.acknowledged_le id hid).trans hlocal.sequence
  case nodup => exact hnodup
  case known =>
    exact fun request hreq => hknown _ fun hne => h.known request (hmem request hreq hne)
  case handed_known =>
    refine fun handed hhand => hknown _ fun hne => ?_
    have hto : handed.2 ∈ p'.log.handedTo handed.1 :=
      mem_map_of_mem (mem_filter.mpr ⟨hhand, by simp⟩)
    rw [hlocal.handed _ hne] at hto
    obtain ⟨earlier, hearl, -⟩ := mem_map.mp hto
    obtain ⟨hearl, heq⟩ := mem_filter.mp hearl
    exact of_decide_eq_true heq ▸ h.handed_known earlier hearl
  case live =>
    intro t r ht hopen
    by_cases hne : t = token
    · subst hne
      obtain rfl := hself ht
      rw [hindex, hslot, hopen]
      rfl
    · have hlive := h.live t r (hlocal.records t hne ▸ ht) hopen
      rw [hlocal.slots]
      · exact hlive
      · intro hi
        rw [hi] at hlive
        rcases hown with hsome | ⟨hnone, -⟩
        · exact hne (Option.some.inj (hlive.symm.trans hsome))
        · cases hlive.symm.trans hnone
  case owner =>
    intro j t ht
    by_cases hj : j = i
    · subst hj
      rw [hslot] at ht
      cases hcl : record.closed with
      | true => simp [hcl] at ht
      | false =>
        obtain rfl : token = t := by simpa [hcl] using ht
        exact ⟨record, hrec, hcl, hindex⟩
    · rw [hlocal.slots j hj] at ht
      obtain ⟨r, hr, hopen, hri⟩ := h.owner j t ht
      exact ⟨r, (hlocal.records t (hother hj ht)).trans hr, hopen, hri⟩
  case tracks =>
    intro t r ht
    by_cases hne : t = token
    · subst hne
      exact hself ht ▸ htrk
    · exact (h.tracks t r (hlocal.records t hne ▸ ht)).congr (.refl r) (hlocal.sent t hne)
        (hlocal.handed t hne) fun _ _ => by rw [hlocal.acknowledged]
  case failed => exact hfld
  case wired =>
    intro hfail j
    by_cases hj : j = i
    · exact hj ▸ hwired hfail
    · refine (h.wired (hlocal.failure ▸ hfail) j).congr (hlocal.slots j hj) hlocal.sequence
        fun t ht => ?_
      have hne := hother hj ht
      exact ⟨hlocal.sent t hne, hlocal.handed t hne, hlocal.callbacks t hne⟩
  case fences => exact hfences

theorem of_slots {failure : Bool} {callbacks : ℕ → Option (Callback n)}
    (hslots : ∀ i, (slots i).record = (p.slots i).record)
    (hfld : failure = true → ∀ id, callbacks id = none)
    (hwired : failure = false → ∀ i, ({ p with slots, failure, callbacks }).Wired parser i) :
    ({ p with slots, failure, callbacks }).Inv parser :=
  { h with
    live := fun t r hr hopen => (hslots _).trans (h.live t r hr hopen)
    owner := fun i t hi => h.owner i t (hslots i ▸ hi)
    failed := hfld
    wired := hwired }

theorem handedTo_eq_nil (hnone : p.records token = none) : p.log.handedTo token = [] := by
  rw [Log.handedTo, map_eq_nil_iff, filter_eq_nil_iff]
  intro handed hmem htoken
  exact h.handed_known handed hmem (by rw [of_decide_eq_true htoken, hnone])

theorem handleFailure : p.handleFailure.Inv parser := by
  unfold Pool.handleFailure
  split
  · exact h
  · exact { h with failed := fun _ _ => rfl, wired := by simp }

variable (token) (f : Record n S → Record n S)

theorem setRecord_acknowledged
    (acknowledged : List ℕ) (hindex : ∀ record, (f record).index = record.index)
    (hcl : ∀ record, (f record).closed = record.closed)
    (hle : ∀ id ∈ acknowledged, id ≤ p.sequence) (hself : ∀ record, p.records token = some record →
      ({ p.log with acknowledged := acknowledged }).Tracks parser token (f record))
    (hother : ∀ t record, t ≠ token → p.records t = some record →
      ({ p.log with acknowledged := acknowledged }).Tracks parser t record) :
    ({ p.setRecord token f with
      log := { p.log with acknowledged := acknowledged } }).Inv parser := by
  have hagree : p.Agree (p.setRecord token f) := by
    intro t
    by_cases ht : t = token
    · subst ht
      simp [setRecord, Function.comp_def, hindex, hcl]
    · simp [setRecord, update_of_ne ht]
  refine { h with
    tokens := ?_
    acknowledged_le := hle
    known := fun request hmem => hagree.ne_none (h.known request hmem)
    handed_known := fun handed hmem => hagree.ne_none (h.handed_known handed hmem)
    live := ?_
    owner := ?_
    tracks := ?_
    wired := ?_
    fences := ?_ }
  · intro t record' hr
    obtain ⟨record, hrec, -⟩ := Agree.some (fun t => (hagree t).symm) hr
    exact h.tokens t record hrec
  · intro t record' hr hopen
    obtain ⟨record, hrec, hi, hc⟩ := Agree.some (fun t => (hagree t).symm) hr
    exact hi ▸ h.live t record hrec (hc.trans hopen)
  · intro i t hi
    obtain ⟨_, hr, hopen, hslot⟩ := h.owner i t hi
    obtain ⟨record', hr', hi', hc⟩ := hagree.some hr
    exact ⟨record', hr', hc.trans hopen, hi'.trans hslot⟩
  · intro t record' hr
    by_cases ht : t = token
    · subst ht
      simp only [setRecord, update_self, Option.map_eq_some_iff] at hr
      obtain ⟨record, hrec, rfl⟩ := hr
      exact hself record hrec
    · simp only [setRecord, update_of_ne ht] at hr
      exact hother t record' ht hr
  · exact fun hfail i => (h.wired hfail i).congr rfl le_rfl fun _ _ => ⟨rfl, rfl, fun _ _ => rfl⟩
  · intro fence hmem
    have hc := h.fences fence hmem
    exact { hc with }

theorem setRecord_of_tracks (hindex : ∀ record, (f record).index = record.index)
    (hcl : ∀ record, (f record).closed = record.closed)
    (htrk : ∀ record, p.records token = some record → p.log.Tracks parser token (f record)) :
    (p.setRecord token f).Inv parser :=
  h.setRecord_acknowledged token f p.log.acknowledged hindex hcl h.acknowledged_le htrk
    fun t record _ hr => h.tracks t record hr

theorem setRecord
    (hf : ∀ record : Record n S, record.Same (f record)) : (p.setRecord token f).Inv parser :=
  h.setRecord_of_tracks token f (fun record => (hf record).index) (fun record => (hf record).closed)
    fun record hr => (h.tracks token record hr).congr (hf record) rfl rfl fun _ _ => Iff.rfl

end Inv

end Pool

/-! ## Posting a request -/

namespace Log

variable {log : Log A S}

def post (log : Log A S) (request : Request) : Log A S :=
  { log with posted := log.posted ++ [request] }

theorem token_of_mem (h : request ∈ log.sentBy token) : request.token = token :=
  of_decide_eq_true (mem_filter.mp h).2

theorem sentBy_post_self (log : Log A S) (request : Request) :
    (log.post request).sentBy request.token = log.sentBy request.token ++ [request] := by
  simp [sentBy, post]

theorem sentBy_post_of_ne (log : Log A S) (request : Request) (hne : request.token ≠ token) :
    (log.post request).sentBy token = log.sentBy token := by
  simp [sentBy, post, hne]

theorem Follows.mono {log' : Log A S} {id : ℕ} (h : log.Follows request id)
    (hlater : ∃ later, log'.sentBy request.token = log.sentBy request.token ++ later) :
    log'.Follows request id := by
  obtain ⟨before, last, after, hsent, hmem, hid⟩ := h
  obtain ⟨later, hlater⟩ := hlater
  exact ⟨before, last, after ++ later, by rw [hlater, hsent]; simp, hmem, hid⟩

theorem Covers.post {fence : Fence S} (h : log.Covers fence) (request : Request) :
    (log.post request).Covers fence := by
  refine ⟨?_, ?_, h.skipped⟩
  · have hle := h.posted_le
    simp only [Log.post, length_append]
    omega
  · intro earlier hmem hskip
    simp only [Log.post, take_append_of_le_length h.posted_le] at hmem
    rcases h.covered earlier hmem hskip with hhand | hnone | ⟨id, hid, hfoll⟩
    · exact .inl hhand
    · exact .inr (.inl hnone)
    · exact .inr (.inr ⟨id, hid, hfoll.mono ⟨_, filter_append ..⟩⟩)

theorem Tracks.post_self (request : Request) (h : log.Tracks parser request.token record)
    (hprom : record.closePromise = none) (hnew : request.id ∉ log.acknowledged)
    (hcl : record'.closed = false)
    (hpend : record'.pendingBytes = record.pendingBytes + request.op.bytes)
    (hclg : record'.closing = record'.closePromise.isSome)
    (hopen : (∀ id, record'.closePromise ≠ some (some id)) → request.op ≠ .close)
    (hclose : ∀ id, record'.closePromise = some (some id) → request.op = .close ∧ request.id = id) :
    (log.post request).Tracks parser request.token record' := by
  have huncl := h.unclosed (by simp [hprom])
  refine ⟨?_, ?_, ?_, by simp [hcl], ?_, hclg, ?_, ?_⟩
  · rw [sentBy_post_self, replay_append]
    exact h.delivered.trans (prefix_append ..)
  · rw [hpend, h.pending]
    simp only [unacknowledged, sentBy_post_self, filter_append, map_append, sum_append]
    refine congrArg₂ _ rfl ?_
    simp [Log.post, hnew]
  · have hlen : (log.handedTo request.token).length ≤ (log.sentBy request.token).length := by
      have hle := h.delivered.length_le
      rwa [length_replay] at hle
    rw [sentBy_post_self,
      show ((log.post request).handedTo request.token) = log.handedTo request.token from rfl,
      drop_append_of_le_length hlen, forall_mem_append, forall_mem_singleton]
    exact ⟨h.unhanded, hnew⟩
  · obtain ⟨first, hfirst, hop⟩ := h.attached
    exact ⟨first, by rw [sentBy_post_self, head?_append, hfirst]; rfl, hop⟩
  · intro hnone
    rw [sentBy_post_self, forall_mem_append, forall_mem_singleton]
    exact ⟨huncl, hopen hnone⟩
  · intro id hid
    obtain ⟨hop, hreq⟩ := hclose id hid
    exact ⟨log.sentBy request.token, request, sentBy_post_self log request, hop, hreq, huncl⟩

end Log

namespace Pool

variable {p : Pool n σ A S}

/-- The pool after a request of a connection with that record -/
def post (p : Pool n σ A S) (request : Request) (record : Record n S) : Pool n σ A S :=
  { p with
    slots := Function.update p.slots record.index
      { p.slots record.index with
        record := some request.token
        requests := (p.slots record.index).requests ++ [request] }
    records := Function.update p.records request.token (some record)
    callbacks := Function.update p.callbacks request.id
      (some ⟨record.index, request.token, request.op, request.op.bytes⟩)
    sequence := request.id
    log := p.log.post request }

theorem Busy.post (h : p.Busy parser record.index request.token) (hid : p.sequence < request.id)
    (hle : ∀ request ∈ p.log.posted, request.id ≤ p.sequence) :
    (p.post request record).Busy parser record.index request.token := by
  obtain ⟨start, a, b, hsent, hlen, hress, hctx, hstart, hrep, hcbs⟩ := h
  refine ⟨start, a, b, ?_, hlen, ?_, ?_, hstart, hrep, ?_⟩
  · simp only [Pool.post]
    rw [sentBy_post_self, hsent]
    simp
  · simpa [Pool.post] using hress
  · simpa [Pool.post] using hctx
  · intro earlier hmem
    simp only [Pool.post, update_self, ← append_assoc] at hmem ⊢
    rcases mem_append.mp hmem with hmem | hmem
    · have hin : earlier ∈ p.log.sentBy request.token := by
        rw [hsent, append_assoc]
        exact mem_append_right _ hmem
      have hpost := hle earlier (mem_filter.mp hin).1
      rw [update_of_ne (by omega)]
      exact hcbs earlier hmem
    · rw [mem_singleton.mp hmem, update_self]

namespace Inv

variable (h : p.Inv parser)
include h

theorem nodup_post (hid : p.sequence < request.id) :
    ((p.log.post request).posted.map Request.id).Nodup := by
  rw [Log.post, map_append]
  refine h.nodup.append (nodup_singleton _) (disjoint_singleton.mpr fun hmem => ?_)
  obtain ⟨earlier, hmem, _⟩ := mem_map.mp hmem
  have hle := h.posted_le earlier hmem
  omega

theorem callbacks_of_mem {id token : ℕ} (hid : p.sequence < id)
    (hmem : request ∈ p.log.sentBy token) {callback : Option (Callback n)} :
    Function.update p.callbacks id callback request.id = p.callbacks request.id := by
  have hle := h.posted_le request (mem_filter.mp hmem).1
  exact update_of_ne (by omega) _ _

theorem of_post (hfail : p.failure = false) (hid : p.sequence < request.id)
    (htoken : request.token ≤ request.id)
    (hown : (p.slots record.index).record = some request.token ∨
      (p.slots record.index).record = none ∧ p.records request.token = none)
    (hopen : record.closed = false) (htrk : (p.log.post request).Tracks parser request.token record)
    (hbusy : p.Busy parser record.index request.token) : (p.post request record).Inv parser := by
  have hslot : ((p.post request record).slots record.index).record = some request.token := by
    simp [post]
  refine h.of_local ⟨hid.le, fun j hj => update_of_ne hj .., fun t ht => update_of_ne ht .., rfl,
    fun t ht => sentBy_post_of_ne p.log _ (Ne.symm ht), fun _ _ => rfl, rfl,
    fun t _ request hmem => h.callbacks_of_mem hid hmem⟩ hown (update_self ..) rfl ?_ htoken ?_
    (h.nodup_post hid) htrk (by simp [post, hfail])
    (fun _ => ⟨fun hfree => ?_, ?_, fun t ht => ?_⟩) fun fence hmem => (h.fences fence hmem).post _
  · rw [hslot, hopen]
    rfl
  · intro earlier hmem
    rcases mem_append.mp (mem_filter.mp hmem).1 with hmem | hmem
    · exact (h.posted_le earlier hmem).trans hid.le
    · exact mem_singleton.mp hmem ▸ le_rfl
  · cases hslot.symm.trans hfree
  · intro context hc
    refine ((h.wired hfail record.index).token_le context ?_).trans hid.le
    simpa [post] using hc
  · cases hslot.symm.trans ht
    exact hbusy.post hid h.posted_le

theorem not_acknowledged {id : ℕ} (hid : p.sequence < id) : id ∉ p.log.acknowledged :=
  fun hmem => hid.not_ge (h.acknowledged_le id hmem)

theorem post {op : Op} (hfail : p.failure = false)
    (hr : p.records token = some record) (hopen : record.closed = false)
    (hprom : record.closePromise = none) (hindex : record'.index = record.index)
    (hcl : record'.closed = false)
    (hpend : record'.pendingBytes = record.pendingBytes + op.bytes)
    (hclg : record'.closing = record'.closePromise.isSome)
    (huncl : (∀ id, record'.closePromise ≠ some (some id)) → op ≠ .close)
    (hclose : ∀ id, record'.closePromise = some (some id) → op = .close ∧ p.sequence + 1 = id) :
    (p.post ⟨p.sequence + 1, token, op⟩ record').Inv parser := by
  have hrec : (p.slots record'.index).record = some token :=
    hindex ▸ h.live token record hr hopen
  refine h.of_post hfail (Nat.lt_succ_self _) ((h.tokens token record hr).trans (Nat.le_succ _))
    (.inl hrec) hcl ?_ ((h.wired hfail _).busy token hrec)
  exact Log.Tracks.post_self ⟨p.sequence + 1, token, op⟩ (h.tracks token record hr) hprom
    (h.not_acknowledged (Nat.lt_succ_self _)) hcl hpend hclg huncl hclose

end Inv

/-! ## Calls of the pool -/

theorem request_of_failure (hfail : p.failure = true) (i : Fin n) (token : ℕ) (op : Op)
    (bytes : ℕ) : p.request i token op bytes = (p, none) := by
  simp [request, hfail]

theorem slots_post (hi : (p.slots i).record = some token) (requests : List Request) :
    { p.slots i with record := some token, requests } = { p.slots i with requests } := by
  rw [← hi]

theorem setRecord_id (p : Pool n σ A S) (token : ℕ) : p.setRecord token id = p := by
  simp [setRecord]

theorem setRecord_post (f : Record n S → Record n S) (hindex : (f record).index = record.index) :
    (p.post request record).setRecord request.token f = p.post request (f record) := by
  simp [setRecord, post, hindex]

theorem request_setRecord (hr : p.records token = some record) (hfail : p.failure = false)
    (hi : (p.slots record.index).record = some token) (op : Op)
    (f : Record n S → Record n S) (hindex : (f record).index = record.index) :
    (p.setRecord token f).request record.index token op op.bytes =
      (p.post ⟨p.sequence + 1, token, op⟩ (f record), some (p.sequence + 1)) := by
  simp [request, hfail, setRecord, setSlot, post, Log.post, hr, hindex, slots_post hi]

theorem request_eq_post (hr : p.records token = some record) (hfail : p.failure = false)
    (hi : (p.slots record.index).record = some token) (op : Op) :
    p.request record.index token op op.bytes =
      (p.post ⟨p.sequence + 1, token, op⟩ record, some (p.sequence + 1)) := by
  have hreq := request_setRecord hr hfail hi op id rfl
  rwa [setRecord_id] at hreq

namespace Inv

section

variable (h : p.Inv parser)
include h

variable (token : ℕ)

theorem send (bytes : List UInt8) : (p.send token bytes).Inv parser := by
  unfold Pool.send
  split
  · exact h
  rename_i record hr
  split
  · exact h
  rename_i hguard
  split
  · exact h
  simp only [Bool.or_eq_true, not_or, Bool.not_eq_true] at hguard
  obtain ⟨⟨⟨hclg, hcl⟩, -⟩, hfail⟩ := hguard
  have htrk := h.tracks token record hr
  have hprom := htrk.closePromise_eq_none hclg
  rw [show bytes.length = (Op.data bytes).bytes from rfl]
  dsimp only
  rw [request_setRecord hr hfail (h.live token record hr hcl) _ _ rfl]
  exact h.post hfail hr hcl hprom rfl hcl rfl htrk.closing_eq (by simp)
    (by simp [hprom])

theorem closeSession : (p.closeSession token).1.Inv parser := by
  unfold Pool.closeSession
  split
  · exact h
  rename_i record hr
  split
  · exact h
  rename_i hcl
  rw [Bool.not_eq_true] at hcl
  split
  · exact h
  rename_i hprom
  dsimp only
  cases hfail : p.failure with
  | true =>
    rw [request_of_failure hfail]
    refine h.setRecord_of_tracks token _ (fun _ => rfl) (fun _ => rfl) ?_
    intro record₀ hr₀
    have ht := h.tracks token record₀ hr₀
    obtain rfl : record = record₀ := by simpa [hr] using hr₀
    exact ⟨ht.1, ht.2, ht.3, ht.4, ht.5, rfl, fun _ => ht.unclosed (by simp [hprom]), by simp⟩
  | false =>
    rw [show 0 = Op.close.bytes from rfl,
      request_eq_post hr hfail (h.live token record hr hcl), setRecord_post _ rfl]
    exact h.post hfail hr hcl hprom rfl hcl rfl rfl (by simp) (by simp)

theorem destroy : (p.destroy token).Inv parser :=
  h.setRecord token _ fun _ => ⟨rfl, rfl, rfl, rfl, rfl⟩

theorem setSlot (i : Fin n) (f : Slot σ A → Slot σ A)
    (hrec : (f (p.slots i)).record = (p.slots i).record)
    (hwired : p.failure = false → (p.setSlot i f).Wired parser i) : (p.setSlot i f).Inv parser := by
  refine h.of_slots (update_slots Slot.record hrec) h.failed fun hfail i' => ?_
  by_cases hi : i' = i
  · subst hi
    exact hwired hfail
  · exact (h.wired hfail i').congr (update_of_ne hi ..) le_rfl
      fun _ _ => ⟨rfl, rfl, fun _ _ => rfl⟩

theorem work (i : Fin n) : (p.work parser i).Inv parser := by
  unfold Pool.work
  split
  · exact h
  rename_i request _ hreqs
  apply h.setSlot i
  · rfl
  intro hfail
  have hw := h.wired hfail i
  refine ⟨?_, ?_, ?_⟩
  · intro hfree
    have hnil := (hw.free (by simpa [Pool.setSlot] using hfree)).1
    simp [hreqs] at hnil
  · intro context hc
    simp only [Pool.setSlot, update_self] at hc
    rcases handleRequest_token hc with htoken | ⟨before, hbef, htoken⟩
    · cases hrec : (p.slots i).record with
      | none =>
        have hnil := (hw.free hrec).1
        simp [hreqs] at hnil
      | some token =>
        obtain ⟨record, hr, -⟩ := h.owner i token hrec
        obtain ⟨-, a, b, hsent, -⟩ := hw.busy token hrec
        have hmem : request ∈ p.log.sentBy token := by
          rw [hsent, hreqs]
          simp
        have htoken' := token_of_mem hmem
        rw [htoken, htoken']
        exact h.tokens token record hr
    · rw [htoken]
      exact hw.token_le before hbef
  · intro token htoken
    simp only [Pool.setSlot, update_self] at htoken
    obtain ⟨start, a, b, hsent, hlen, hress, hctx, hstart, hrep, hcbs⟩ :=
      hw.busy token htoken
    refine ⟨start, a, b ++ [request], ?_, hlen, ?_, ?_, hstart, hrep, ?_⟩
    · simp only [Pool.setSlot]
      rw [hsent, hreqs]
      simp
    · simp only [Pool.setSlot, update_self]
      rw [replay_append, hress, hctx]
      rfl
    · simp only [Pool.setSlot, update_self]
      rw [replay_append, hctx]
      rfl
    · intro request' hmem
      apply hcbs request'
      rw [hreqs]
      simpa [Pool.setSlot] using hmem

theorem join (hfail : p.failure = false) (hfree : (p.slots i).record = none) (valid : Bool) :
    (p.post ⟨p.sequence + 2, p.sequence + 1, .attach valid⟩ { index := i }).Inv parser := by
  have hnew : p.records (p.sequence + 1) = none := by
    cases hr : p.records _ with
    | none => rfl
    | some record =>
      have hle := h.tokens _ record hr
      omega
  have hsent : p.log.sentBy (p.sequence + 1) = [] := by
    rw [Log.sentBy, filter_eq_nil_iff]
    intro request hmem htoken
    exact h.known request hmem (by rw [of_decide_eq_true htoken, hnew])
  have hself := sentBy_post_self p.log ⟨p.sequence + 2, p.sequence + 1, .attach valid⟩
  rw [hsent, nil_append] at hself
  have hhand := h.handedTo_eq_nil hnew
  have hw := h.wired hfail i
  have hid : p.sequence < p.sequence + 2 := by omega
  obtain ⟨hreqs, hress⟩ := hw.free hfree
  refine h.of_post hfail hid (Nat.le_succ _) (.inr ⟨hfree, hnew⟩) rfl
    ⟨?_, ?_, ?_, nofun, ?_, rfl, ?_, nofun⟩
    ⟨(p.slots i).context, [], [], ?_, ?_, hress, rfl, ?_, by simp, ?_⟩
  · exact hhand.symm ▸ nil_prefix
  · rw [Log.unacknowledged, hself, filter_cons]
    split <;> rfl
  · intro request hmem
    rw [hself] at hmem
    rw [mem_singleton.mp (mem_of_mem_drop hmem)]
    exact h.not_acknowledged hid
  · exact ⟨_, by rw [hself]; rfl, valid, rfl⟩
  · intro _ request hmem
    rw [hself] at hmem
    rw [mem_singleton.mp hmem]
    exact nofun
  · rw [hsent, hreqs]
    rfl
  · exact (congrArg List.length hhand).symm
  · intro context hc heq
    exact absurd (heq ▸ hw.token_le context hc) (Nat.not_succ_le_self _)
  · simp [hreqs]

theorem attach (valid : Bool) : (p.attach valid).Inv parser := by
  unfold Pool.attach
  split
  · exact h
  rename_i hfree
  unfold freeSlot? at hfree
  split at hfree
  · simp at hfree
  rename_i hguard
  simp only [Bool.or_eq_true, not_or, Bool.not_eq_true] at hguard
  have hjoin := h.join hguard.2 (by simpa using find?_some hfree) valid
  simpa [request, hguard.2, Pool.setSlot, Pool.post, Log.post, Op.bytes] using hjoin

end

end Inv

end Pool

/-! ## Handing a result on -/

namespace Log

variable {log : Log A S}

def hand (log : Log A S) (token : ℕ) (message : Result A) : Log A S :=
  { log with handed := log.handed ++ [(token, message)] }

theorem handedTo_hand_self (log : Log A S) (token : ℕ) (message : Result A) :
    (log.hand token message).handedTo token = log.handedTo token ++ [message] := by
  simp [handedTo, hand]

theorem handedTo_hand_of_ne (log : Log A S) (message : Result A) {token token' : ℕ}
    (hne : token ≠ token') : (log.hand token message).handedTo token' = log.handedTo token' := by
  simp [handedTo, hand, hne]

theorem Covers.hand {fence : Fence S} (h : log.Covers fence) (token : ℕ) (message : Result A) :
    (log.hand token message).Covers fence := by
  refine ⟨h.posted_le, ?_, h.skipped⟩
  intro request hmem hskip
  rcases h.covered request hmem hskip with ⟨result, hres, hid⟩ | hwaits
  · refine .inl ⟨result, ?_, hid⟩
    by_cases hne : token = request.token
    · subst hne
      rw [handedTo_hand_self]
      exact mem_append_left _ hres
    · rwa [handedTo_hand_of_ne log message hne]
  · exact .inr hwaits

theorem Tracks.hand_self (h : log.Tracks parser token record) (hopen : record.closed = false)
    (hnext : log.handedTo token ++ [message] <+: (replay parser none (log.sentBy token)).2) :
    (log.hand token message).Tracks parser token record := by
  refine { h with delivered := ?_, unhanded := ?_, finished := by simp [hopen] }
  · rw [handedTo_hand_self]
    exact hnext
  · intro request hmem
    rw [handedTo_hand_self, length_append, ← drop_drop] at hmem
    exact h.unhanded request (mem_of_mem_drop hmem)

end Log

namespace Pool

variable {p : Pool n σ A S}

/-- The pool when the first result of a slot is with `onResult`. -/
def received (p : Pool n σ A S) (i : Fin n) (token : ℕ) (message : Result A)
    (rest : List (Result A)) : Pool n σ A S :=
  { p with
    slots := Function.update p.slots i { p.slots i with results := rest }
    callbacks := Function.update p.callbacks message.requestId none
    log := p.log.hand token message }

theorem Busy.first (h : p.Busy parser i token) (hress : (p.slots i).results = message :: rest)
    (htrk : p.log.Tracks parser token record) :
    ∃ start a request b, p.log.sentBy token = a ++ request :: b ++ (p.slots i).requests ∧
      a.length = (p.log.handedTo token).length ∧
      message = (handleRequest parser (replay parser start a).1 request).2 ∧
      rest = (replay parser (replay parser start (a ++ [request])).1 b).2 ∧
      (p.slots i).context = (replay parser (replay parser start (a ++ [request])).1 b).1 ∧
      (∀ context ∈ start, context.token ≠ token) ∧
      (message.error = false →
        replay parser start (a ++ [request]) = replay parser none (a ++ [request])) ∧
      ∀ request' ∈ request :: b ++ (p.slots i).requests,
        p.callbacks request'.id = some ⟨i, token, request'.op, request'.op.bytes⟩ := by
  obtain ⟨start, a, b, hsent, hlen, hres, hctx, hstart, hrep, hcbs⟩ := h
  cases b with
  | nil => simp [hress, replay] at hres
  | cons request b =>
    simp only [replay, hress, List.cons.injEq] at hres
    refine ⟨start, a, request, b, hsent, hlen, hres.1, ?_, ?_, hstart, fun hok => ?_, hcbs⟩
    · rw [replay_append]
      exact hres.2
    · rw [replay_append]
      exact hctx
    · rw [replay_append, replay_append]
      cases a with
      | nil =>
        obtain ⟨first, hfirst, _, hop⟩ := htrk.attached
        obtain rfl : request = first := by simpa [hsent] using hfirst
        have htoken : request.token = token := by
          have hmem : request ∈ p.log.sentBy token := by simp [hsent]
          exact token_of_mem hmem
        have hatt : handleRequest parser start request = handleRequest parser none request :=
          handleRequest_attach hop (htoken ▸ hstart) (hres.1 ▸ hok)
        simp [replay, hatt]
      | cons _ a => rw [hrep (by simp)]

theorem Inv.nodup_sentBy (h : p.Inv parser) (token : ℕ) :
    ((p.log.sentBy token).map Request.id).Nodup :=
  h.nodup.sublist (filter_sublist.map Request.id)

theorem Inv.id_ne_of_token_ne (h : p.Inv parser) {token token' : ℕ} (hne : token ≠ token')
    {request request' : Request} (hmem : request ∈ p.log.sentBy token)
    (hmem' : request' ∈ p.log.sentBy token') : request'.id ≠ request.id := by
  intro heq
  have hsame := inj_on_of_nodup_map h.nodup (mem_filter.mp hmem').1
    (mem_filter.mp hmem).1 heq
  have htoken := token_of_mem hmem'
  rw [hsame, token_of_mem hmem] at htoken
  exact hne htoken

theorem Inv.received (h : p.Inv parser) (hfail : p.failure = false)
    (hi : (p.slots i).record = some token) (hress : (p.slots i).results = message :: rest)
    (hok : message.error = false) : (p.received i token message rest).Inv parser := by
  have hw := h.wired hfail i
  obtain ⟨record, hr, hopen, hindex⟩ := h.owner i token hi
  have htrk := h.tracks token record hr
  obtain ⟨start, a, request, b, hsent, hlen, hmsg, hrest, hctx, hstart, hrep,
    hcbs⟩ := (hw.busy token hi).first hress htrk
  have hid : message.requestId = request.id := by
    rw [hmsg]
    exact (handleRequest_ids ..).1
  have hsplit : p.log.sentBy token = (a ++ [request]) ++ (b ++ (p.slots i).requests) := by
    rw [hsent]
    simp
  have hone :
      (replay parser start (a ++ [request])).2 = (replay parser start a).2 ++ [message] := by
    rw [replay_append, hmsg]
    rfl
  have hdone : (replay parser start a).2 ++ [message] <+:
      (replay parser none (p.log.sentBy token)).2 := by
    rw [← hone, hrep hok, hsplit, replay_append _ (a ++ [request])]
    exact prefix_append ..
  have hhand : p.log.handedTo token = (replay parser start a).2 := by
    have hlength : (p.log.handedTo token).length = (replay parser start a).2.length := by
      rw [length_replay, hlen]
    exact (prefix_of_prefix_length_le htrk.delivered ((prefix_append ..).trans hdone)
      hlength.le).eq_of_length hlength
  have hother : ∀ request' ∈ b ++ (p.slots i).requests, request'.id ≠ message.requestId := by
    have hnodup := h.nodup_sentBy token
    rw [hsent, append_assoc, map_append] at hnodup
    have hnot := (nodup_cons.mp (nodup_append.mp hnodup).2.1).1
    intro request' hmem heq
    apply hnot
    rw [← hid, ← heq]
    exact mem_map_of_mem hmem
  have hslot : ((p.received i token message rest).slots i).record = some token := by
    simpa [Pool.received] using hi
  refine h.of_local ⟨le_rfl, fun j hj => update_of_ne hj .., fun _ _ => rfl, rfl, fun _ _ => rfl,
    fun t ht => handedTo_hand_of_ne p.log message (Ne.symm ht), rfl, fun t ht request' hmem => ?_⟩
    (.inl hi) hr hindex ?_ (h.tokens token record hr)
    (fun request hmem => h.posted_le request (mem_filter.mp hmem).1) h.nodup
    (htrk.hand_self hopen (hhand ▸ hdone)) (by simp [Pool.received, hfail])
    (fun _ => ⟨fun hfree => ?_, ?_, fun t ht => ?_⟩)
    fun fence hmem => (h.fences fence hmem).hand token message
  · exact update_of_ne (hid ▸ h.id_ne_of_token_ne (Ne.symm ht) (by simp [hsent]) hmem) _ _
  · rw [hslot, hopen]
    rfl
  · cases hslot.symm.trans hfree
  · simpa [Pool.received] using hw.token_le
  · cases hslot.symm.trans ht
    refine ⟨start, a ++ [request], b, ?_, ?_, ?_, ?_, hstart, fun _ => hrep hok, ?_⟩
    · simp only [Pool.received]
      rw [show (p.log.hand token message).sentBy token = p.log.sentBy token from rfl, hsent]
      simp
    · simp only [Pool.received]
      rw [handedTo_hand_self, length_append, length_append, hlen]
      rfl
    · simpa [Pool.received] using hrest
    · simpa [Pool.received] using hctx
    · intro request' hmem
      have hmem' : request' ∈ b ++ (p.slots i).requests := by
        simpa [Pool.received] using hmem
      simp only [Pool.received, update_of_ne (hother request' hmem')]
      apply hcbs request'
      exact mem_cons_of_mem _ hmem'

end Pool

/-! ## Acknowledging a request -/

namespace Log

variable {log : Log A S}

/-- The last request of a connection that was handed, and not acknowledged so far -/
def Answered (log : Log A S) (token : ℕ) (request : Request) : Prop :=
  ∃ a c, log.sentBy token = a ++ request :: c ∧
    (log.handedTo token).length = a.length + 1 ∧ request.id ∉ log.acknowledged

def acknowledge (log : Log A S) (id : ℕ) : Log A S :=
  { log with acknowledged := log.acknowledged ++ [id] }

theorem unacknowledged_acknowledge (hnodup : ((log.sentBy token).map Request.id).Nodup)
    (hmem : request ∈ log.sentBy token) (hnew : request.id ∉ log.acknowledged) :
    (log.acknowledge request.id).unacknowledged token + request.op.bytes =
      log.unacknowledged token := by
  classical
  have hfilt : (log.sentBy token).filter
        (fun later => later.id ∉ (log.acknowledge request.id).acknowledged) =
      ((log.sentBy token).filter fun later => later.id ∉ log.acknowledged).erase request := by
    rw [(hnodup.of_map.filter _).erase_eq_filter, filter_filter]
    refine filter_congr fun later hlater => ?_
    have hinj : later.id = request.id ↔ later = request :=
      ⟨inj_on_of_nodup_map hnodup hlater hmem, congrArg Request.id⟩
    rw [Bool.eq_iff_iff]
    simp [acknowledge, hinj, and_comm]
  have hleft : request ∈ (log.sentBy token).filter fun later => later.id ∉ log.acknowledged :=
    mem_filter.mpr ⟨hmem, decide_eq_true hnew⟩
  have hsum := sum_map_erase (fun later => later.op.bytes) hleft
  rwa [← hfilt, add_comm] at hsum

theorem Tracks.acknowledge_self (h : log.Tracks parser token record)
    (hanswered : log.Answered token request) (hnodup : ((log.sentBy token).map Request.id).Nodup)
    (retainedBufferBytes : ℕ) : (log.acknowledge request.id).Tracks parser token { record with
      retainedBufferBytes, pendingBytes := record.pendingBytes - request.op.bytes } := by
  obtain ⟨a, c, hsent, hlen, hnew⟩ := hanswered
  refine { h with pending := ?_, unhanded := ?_ }
  · have hsum := unacknowledged_acknowledge hnodup (by simp [hsent]) hnew
    dsimp only
    rw [h.pending]
    omega
  · intro later hmem
    have hdrop : (log.sentBy token).drop (log.handedTo token).length = c := by
      rw [hsent, hlen, ← drop_drop, drop_left]
      rfl
    have hmem' : later ∈ (log.sentBy token).drop (log.handedTo token).length := hmem
    have hne : later.id ≠ request.id := by
      rw [hdrop] at hmem'
      rw [hsent, map_append, map_cons, nodup_append, nodup_cons] at hnodup
      intro heq
      exact hnodup.2.1.1 (heq ▸ mem_map_of_mem hmem')
    have hunha := h.unhanded later hmem'
    simp [acknowledge, hunha, hne]

theorem Tracks.acknowledge_other {token id : ℕ} (h : log.Tracks parser token record)
    (hnot : ∀ request ∈ log.sentBy token, request.id ≠ id) :
    (log.acknowledge id).Tracks parser token record := by
  refine h.congr (.refl record) rfl rfl fun request hmem => ?_
  simp [acknowledge, hnot request hmem]

end Log

namespace Pool

variable {p : Pool n σ A S}

def freeRecord (record : Record n S) : Record n S :=
  { record with retainedBufferBytes := 0, closed := true }

namespace Inv

variable (h : p.Inv parser)
include h

theorem freed (hi : (p.slots i).record = some token)
    (hall : (p.log.handedTo token).length = (p.log.sentBy token).length) :
    ((p.setRecord token freeRecord).setSlot i fun slot => { slot with record := none }).Inv
      parser := by
  obtain ⟨record, hr, -, hindex⟩ := h.owner i token hi
  have htrk := h.tracks token record hr
  have hself : (p.setRecord token freeRecord).records token = some (freeRecord record) := by
    simp [Pool.setRecord, hr]
  refine h.of_local ⟨le_rfl, fun j hj => update_of_ne hj .., fun t ht => update_of_ne ht .., rfl,
    fun _ _ => rfl, fun _ _ => rfl, rfl, fun _ _ _ _ => rfl⟩ (.inl hi) hself hindex
    (by simp [Pool.setSlot, freeRecord]) (h.tokens token record hr)
    (fun request hmem => h.posted_le request (mem_filter.mp hmem).1) h.nodup
    { htrk with finished := fun _ => hall }
    h.failed (fun hfail => ?_) h.fences
  have hw := h.wired hfail i
  obtain ⟨_, a, b, hsent, _, hress, -⟩ := hw.busy token hi
  have hnil : b = [] ∧ (p.slots i).requests = [] := by
    have hlen := congrArg List.length hsent
    simp only [length_append] at hlen
    exact ⟨eq_nil_of_length_eq_zero (by omega), eq_nil_of_length_eq_zero (by omega)⟩
  refine ⟨fun _ => ⟨?_, ?_⟩, ?_, by simp [Pool.setSlot]⟩
  · simpa [Pool.setSlot, Pool.setRecord] using hnil.2
  · rw [hnil.1] at hress
    simpa [Pool.setSlot, Pool.setRecord, replay] using hress
  · simpa [Pool.setSlot, Pool.setRecord] using hw.token_le

variable (hanswered : p.log.Answered token request)
include hanswered

theorem acknowledged (retained : Record n S → ℕ) : ((p.setRecord token fun record => { record with
      retainedBufferBytes := retained record
      pendingBytes := record.pendingBytes - request.op.bytes }).acknowledge request.id).Inv
      parser := by
  have hmem : request ∈ p.log.sentBy token := by
    obtain ⟨a, c, hsent, -⟩ := hanswered
    simp [hsent]
  refine h.setRecord_acknowledged token _ _ ?_ ?_ ?_ ?_ ?_
  · exact fun _ => rfl
  · exact fun _ => rfl
  · exact forall_mem_append.mpr ⟨h.acknowledged_le,
      forall_mem_singleton.mpr (h.posted_le request (mem_filter.mp hmem).1)⟩
  · intro record hr
    exact (h.tracks token record hr).acknowledge_self hanswered (h.nodup_sentBy token) _
  · intro t record hne hr
    apply (h.tracks t record hr).acknowledge_other
    intro request' hmem'
    exact h.id_ne_of_token_ne (Ne.symm hne) hmem hmem'

/-- The close of a connection was handed: nothing else is under way. -/
theorem last_of_close (hr : p.records token = some record) (hop : request.op = .close) :
    (p.log.handedTo token).length = (p.log.sentBy token).length := by
  obtain ⟨a, c, hsent, hlen, -⟩ := hanswered
  have htrk := h.tracks token record hr
  have hmem : request ∈ p.log.sentBy token := by simp [hsent]
  have hprom : ∃ id, record.closePromise = some (some id) := by
    by_contra hnone
    exact htrk.unclosed (fun id hid => hnone ⟨id, hid⟩) request hmem hop
  obtain ⟨id, hid⟩ := hprom
  obtain ⟨before, _, hsent', -, -, hbef⟩ := htrk.closes id hid
  have hnil : c = [] := by
    rcases eq_nil_or_concat c with hc | ⟨_, x, rfl⟩
    · exact hc
    · rw [hsent, concat_eq_append, ← cons_append, ← append_assoc] at hsent'
      have hbef' := (append_inj' hsent' rfl).1
      have hearl : request ∈ before := by
        rw [← hbef']
        simp
      exact absurd hop (hbef request hearl)
  rw [hsent, hnil, hlen]
  simp

theorem release (hi : (p.slots i).record = some token) (hop : request.op = .close) (throws : Bool) :
    (p.release i token request.id throws).Inv parser := by
  obtain ⟨_, hr, -⟩ := h.owner i token hi
  have hfreed := h.freed hi (h.last_of_close hanswered hr hop)
  unfold Pool.release
  dsimp only
  split
  · exact hfreed.handleFailure
  · have hack := hfreed.acknowledged hanswered Record.retainedBufferBytes
    rw [hop] at hack
    rwa [← setRecord_id (Pool.setSlot ..)]

end Inv

/-! ## The handler of results -/

/-- What a call of `closeSession` or a change of records leaves alone. -/
structure Frame (p p' : Pool n σ A S) : Prop where
  slots : ∀ i, (p'.slots i).record = (p.slots i).record
  failure : p'.failure = p.failure
  handed : p'.log.handed = p.log.handed
  acknowledged : p'.log.acknowledged = p.log.acknowledged
  fences : p'.log.fences = p.log.fences
  posted : ∃ later, p'.log.posted = p.log.posted ++ later

namespace Frame

variable {p' p'' : Pool n σ A S}

theorem refl (p : Pool n σ A S) : p.Frame p :=
  ⟨fun _ => rfl, rfl, rfl, rfl, rfl, [], by simp⟩

theorem trans (h : p.Frame p') (h' : p'.Frame p'') : p.Frame p'' := by
  obtain ⟨later, hlater⟩ := h.posted
  obtain ⟨later', hlater'⟩ := h'.posted
  exact ⟨fun i => (h'.slots i).trans (h.slots i), h'.failure.trans h.failure,
    h'.handed.trans h.handed, h'.acknowledged.trans h.acknowledged, h'.fences.trans h.fences,
    later ++ later', by rw [hlater', hlater, append_assoc]⟩

theorem setRecord (p : Pool n σ A S) (token : ℕ) (f : Record n S → Record n S) :
    p.Frame (p.setRecord token f) :=
  ⟨fun _ => rfl, rfl, rfl, rfl, rfl, [], by simp [Pool.setRecord]⟩

theorem of_request (p : Pool n σ A S) (i : Fin n) (token : ℕ) (op : Op) (bytes : ℕ) :
    p.Frame (p.request i token op bytes).1 := by
  unfold request
  split
  · exact refl p
  · exact ⟨update_slots Slot.record rfl, rfl, rfl, rfl, rfl, _, rfl⟩

theorem closeSession (p : Pool n σ A S) (token : ℕ) : p.Frame (p.closeSession token).1 := by
  unfold Pool.closeSession
  split
  · exact refl p
  split
  · exact refl p
  split
  · exact refl p
  · exact (of_request p _ token .close 0).trans (setRecord _ token _)

theorem sentBy (h : p.Frame p') (token : ℕ) :
    ∃ later, p'.log.sentBy token = p.log.sentBy token ++ later := by
  obtain ⟨later, hlater⟩ := h.posted
  refine ⟨later.filter fun request => request.token = token, ?_⟩
  rw [Log.sentBy, hlater, filter_append]
  rfl

theorem handedTo (h : p.Frame p') (token : ℕ) : p'.log.handedTo token = p.log.handedTo token := by
  rw [Log.handedTo, h.handed]
  rfl

theorem answered (h : p.Frame p') (ha : p.log.Answered token request) :
    p'.log.Answered token request := by
  obtain ⟨a, c, hsent, hlen, _⟩ := ha
  obtain ⟨later, hlater⟩ := h.sentBy token
  refine ⟨a, c ++ later, ?_, ?_, ?_⟩
  · rw [hlater, hsent]
    simp
  · rw [h.handedTo, hlen]
  · rwa [h.acknowledged]

end Frame

/-- It makes no difference whether a request is acknowledged before or after a close. -/
theorem acknowledge_closeSession (p : Pool n σ A S) (token id : ℕ) :
    (p.closeSession token).1.acknowledge id = ((p.acknowledge id).closeSession token).1 := by
  have hrecs : (p.acknowledge id).records = p.records := rfl
  unfold closeSession
  rw [hrecs]
  cases p.records token with
  | none => rfl
  | some record =>
    dsimp only
    split
    · rfl
    · cases record.closePromise with
      | some _ => rfl
      | none =>
        have hfail : (p.acknowledge id).failure = p.failure := rfl
        simp only [request, hfail]
        split <;> rfl

theorem Inv.settle (h : p.Inv parser) (hi : (p.slots i).record = some token)
    (hanswered : p.log.Answered token request) (limit : ℕ) (message : Result A)
    (hid : message.requestId = request.id) (reaction : Reaction S) :
    (p.settle limit i token ⟨i, token, request.op, request.op.bytes⟩ message reaction).Inv
      parser := by
  unfold Pool.settle
  rw [hid]
  by_cases hop : request.op = .close
  · rw [if_pos hop]
    have hsame := h.setRecord token (fun record => { record with
      retainedBufferBytes := message.bufferedMessageBytes
      pendingBytes := record.pendingBytes - request.op.bytes })
      fun record => ⟨rfl, by rw [hop]; rfl, rfl, rfl, rfl⟩
    exact hsame.release hanswered hi hop _
  · rw [if_neg hop]
    have hack := h.acknowledged hanswered fun _ => message.bufferedMessageBytes
    split
    · rw [acknowledge_closeSession]
      exact hack.closeSession token
    · exact hack

theorem Busy.head (h : p.Busy parser i token) (hress : (p.slots i).results = message :: rest)
    (htrk : p.log.Tracks parser token record) :
    ∃ request, message.requestId = request.id ∧ message.token = token ∧
      p.callbacks request.id = some ⟨i, token, request.op, request.op.bytes⟩ ∧
      (p.received i token message rest).log.Answered token request := by
  obtain ⟨start, a, request, b, hsent, hlen, rfl, -, -, -, -, hcbs⟩ := h.first hress htrk
  have hids := handleRequest_ids (replay parser start a).1 request parser
  refine ⟨request, hids.1, ?_, hcbs request mem_cons_self, a, b ++ (p.slots i).requests, ?_,
    ?_, ?_⟩
  · have hmem : request ∈ p.log.sentBy token := by simp [hsent]
    rw [hids.2, token_of_mem hmem]
  · exact hsent.trans (append_assoc ..)
  · simp only [received]
    rw [handedTo_hand_self, length_append, hlen]
    rfl
  · apply htrk.unhanded request
    rw [hsent, ← hlen, append_assoc, drop_left]
    exact mem_cons_self

/-- A result that was handed: what `onResult` does, and what follows. -/
theorem Inv.accept (h : ({ p with log := p.log.hand token message }).Inv parser)
    (hi : (p.slots i).record = some token)
    (hanswered : (p.log.hand token message).Answered token request) (limit : ℕ)
    (hid : message.requestId = request.id) (reaction : Reaction S) :
    (p.accept limit i token ⟨i, token, request.op, request.op.bytes⟩ message reaction).Inv
      parser := by
  have hset : ∀ q : Pool n σ A S, q.Inv parser →
      ({ p with log := p.log.hand token message }).Frame q →
      (if reaction.throws then q.handleFailure
        else q.settle limit i token ⟨i, token, request.op, request.op.bytes⟩ message reaction).Inv
        parser := by
    intro q hq hframe
    split
    · exact hq.handleFailure
    · exact hq.settle ((hframe.slots i).trans hi) (hframe.answered hanswered) limit message hid
        reaction
  refine hset _ ?_ ?_ <;> split
  · apply Inv.closeSession
    exact .setRecord token h _ fun _ => ⟨rfl, rfl, rfl, rfl, rfl⟩
  · exact .setRecord token h _ fun _ => ⟨rfl, rfl, rfl, rfl, rfl⟩
  · exact (Frame.setRecord _ token _).trans (.closeSession _ token)
  · exact .setRecord _ token _

theorem Inv.handleMessage (h : p.Inv parser) (limit : ℕ) (i : Fin n) (reaction : Reaction S) :
    (p.handleMessage limit i reaction).Inv parser := by
  unfold Pool.handleMessage
  split
  · exact h
  rename_i rest hress
  dsimp only
  cases hfail : p.failure with
  | true =>
    -- A pool that has failed knows no callbacks.
    rw [show (p.setSlot i _).callbacks = p.callbacks from rfl, h.failed hfail]
    exact h.setSlot i _ rfl (by simp [hfail])
  | false =>
    have hw := h.wired hfail i
    cases hi : (p.slots i).record with
    | none =>
      have hnil := (hw.free hi).2
      simp [hress] at hnil
    | some token =>
      obtain ⟨record, hr, -⟩ := h.owner i token hi
      obtain ⟨_, hid, htoken, hcb, hanswered⟩ :=
        (hw.busy token hi).head hress (h.tracks token record hr)
      have hslots :
          ∀ i', ((p.setSlot i fun slot => { slot with results := rest }).slots i').record =
          (p.slots i').record := update_slots Slot.record rfl
      rw [show (p.setSlot i _).callbacks = p.callbacks from rfl, hid, hcb]
      dsimp only
      rw [if_neg (by simp [htoken])]
      split
      · unfold Pool.handleFailure
        rw [if_neg (by simp [Pool.setSlot, hfail])]
        exact h.of_slots hslots (fun _ _ => rfl) nofun
      rename_i herror
      have hrecv := h.received hfail hi hress (by simpa using herror)
      rw [show _ = some token from (hslots i).trans hi, htoken]
      simp only [Option.filter]
      rw [← hid]
      refine Inv.accept ?_ ?_ ?_ limit hid reaction
      · exact hrecv
      · exact (hslots i).trans hi
      · exact hanswered

/-! ## Fences -/

end Pool

namespace Log

variable {log : Log A S}

theorem Tracks.handed_of_mem_take (h : log.Tracks parser token record)
    (htoken : request.token = token)
    (hmem : request ∈ (log.sentBy token).take (log.handedTo token).length) :
    log.Handed request := by
  have htake := prefix_iff_eq_take.mp h.delivered
  have hids := congrArg (List.map Result.requestId) htake
  rw [map_take, requestIds_replay, ← map_take] at hids
  have hid : request.id ∈ (log.handedTo token).map Result.requestId := by
    rw [hids]
    exact mem_map_of_mem hmem
  obtain ⟨result, hres, heq⟩ := mem_map.mp hid
  exact ⟨result, htoken ▸ hres, heq⟩

/-- When a request is acknowledged, those sent before for its connection were handed. -/
theorem Tracks.handed_of_follows {id : ℕ} (h : log.Tracks parser request.token record)
    (hfoll : log.Follows request id) (hid : id ∈ log.acknowledged) : log.Handed request := by
  obtain ⟨before, last, _, hsent, hmem, rfl⟩ := hfoll
  have hlen : before.length < (log.handedTo request.token).length := by
    by_contra hle
    apply h.unhanded last ?_ hid
    rw [hsent, drop_append_of_le_length (by omega)]
    simp
  apply h.handed_of_mem_take rfl
  rw [hsent, append_cons, List.take_append, take_of_length_le (by simp; omega)]
  exact mem_append_left _ hmem

end Log

namespace Pool

variable {p p' : Pool n σ A S}

/-- A fence waits for a request that follows, or for a refused one. -/
def Waits (p : Pool n σ A S) (awaits : List (Option ℕ)) (request : Request) : Prop :=
  none ∈ awaits ∨ ∃ id, some id ∈ awaits ∧ p.log.Follows request id

theorem Waits.mono {awaits awaits' : List (Option ℕ)} (h : p.Waits awaits request)
    (hframe : p.Frame p') (hsub : awaits ⊆ awaits') : p'.Waits awaits' request := by
  rcases h with hnone | ⟨id, hid, hfoll⟩
  · exact .inl (hsub hnone)
  · exact .inr ⟨id, hsub hid, hfoll.mono (hframe.sentBy _)⟩

theorem waits_post {later : Request} (hmem : request ∈ p.log.sentBy later.token)
    (record : Record n S) : (p.post later record).Waits [some later.id] request := by
  have htoken := token_of_mem hmem
  refine .inr ⟨later.id, by simp, p.log.sentBy later.token, later, [], ?_, mem_append_left _ hmem,
    rfl⟩
  rw [htoken]
  exact sentBy_post_self p.log later

theorem Inv.waits_closeSession (h : p.Inv parser) (hr : p.records token = some record)
    (hopen : record.closed = false) (hmem : request ∈ p.log.sentBy token) :
    (p.closeSession token).1.Waits (p.closeSession token).2 request := by
  have htoken := token_of_mem hmem
  unfold Pool.closeSession
  simp only [hr, hopen]
  cases hprom : record.closePromise with
  | some promise =>
    cases promise with
    | none => exact .inl (by simp)
    | some id =>
      obtain ⟨before, last, hsent, -, hid, -⟩ := (h.tracks token record hr).closes id hprom
      subst htoken
      exact .inr ⟨id, by simp, before, last, [], hsent, hsent ▸ hmem, hid⟩
  | none =>
    cases hfail : p.failure with
    | true =>
      rw [request_of_failure hfail]
      exact .inl (by simp)
    | false =>
      rw [show 0 = Op.close.bytes from rfl,
        request_eq_post hr hfail (h.live token record hr hopen), setRecord_post _ rfl]
      exact waits_post hmem _

theorem Inv.handed_of_closed (h : p.Inv parser) (hmem : request ∈ p.log.posted)
    (hr : p.records request.token = some record) (hcl : record.closed = true) :
    p.log.Handed request := by
  have htrk := h.tracks request.token record hr
  apply htrk.handed_of_mem_take rfl
  rw [htrk.finished hcl, take_length]
  exact mem_filter.mpr ⟨hmem, decide_eq_true rfl⟩

section Fence

variable [DecidableEq S]

theorem skips_eq_some {source : Option S} {own : S} (h : skips source record = some own) :
    ∃ target, source = some target ∧ own ≠ target := by
  unfold skips at h
  split at h
  · simp only [Option.ite_none_right_eq_some, Option.some.injEq] at h
    exact ⟨_, rfl, h.2 ▸ h.1⟩
  · cases h

/-- What a fence does in some slots. -/
structure Fenced (parser : Parser σ A) (p p' : Pool n σ A S) (source : Option S)
    (awaits : List (Option ℕ)) (skipped : List (ℕ × S)) (indices : List (Fin n)) : Prop where
  inv : p'.Inv parser
  frame : p.Frame p'
  covered : ∀ i ∈ indices, ∀ token, (p.slots i).record = some token →
    ∀ request ∈ p.log.sentBy token, token ∈ skipped.map Prod.fst ∨ p'.Waits awaits request
  skipped : ∀ other ∈ skipped, ∃ target, source = some target ∧ other.2 ≠ target

omit [DecidableEq S] in
theorem Fenced.single {source : Option S} {awaits : List (Option ℕ)} {skipped : List (ℕ × S)}
    (hinv : p'.Inv parser) (hframe : p.Frame p') (hi : (p.slots i).record = some token)
    (hcove : ∀ request ∈ p.log.sentBy token,
      token ∈ skipped.map Prod.fst ∨ p'.Waits awaits request)
    (hskip : ∀ other ∈ skipped, ∃ target, source = some target ∧ other.2 ≠ target) :
    Fenced parser p p' source awaits skipped [i] := by
  refine ⟨hinv, hframe, ?_, hskip⟩
  intro i' hi' token' htoken'
  rw [mem_singleton.mp hi', hi] at htoken'
  exact Option.some.inj htoken' ▸ hcove

theorem Inv.fenceSlot (h : p.Inv parser) (source : Option S) (i : Fin n) :
    Fenced parser p (p.fenceSlot source i).1 source (p.fenceSlot source i).2.1
      (p.fenceSlot source i).2.2 [i] := by
  unfold Pool.fenceSlot
  split
  · rename_i hnone
    exact ⟨h, Frame.refl p, by simp [hnone], by simp⟩
  rename_i token hi
  obtain ⟨record, hr, hopen, hindex⟩ := h.owner i token hi
  have htrk := h.tracks token record hr
  simp only [hr]
  split
  · rename_i hskips
    refine .single h (Frame.refl p) hi (fun _ _ => .inl (by simp)) ?_
    · intro other hother
      rw [mem_singleton.mp hother]
      exact skips_eq_some hskips
  · split
    · exact .single (h.closeSession token) (Frame.closeSession p token) hi
        (fun _ hmem => .inr (h.waits_closeSession hr hopen hmem)) (by simp)
    · rename_i hguard
      simp only [Bool.or_eq_true, not_or, Bool.not_eq_true] at hguard
      have hprom := htrk.closePromise_eq_none hguard.1
      subst hindex
      have hframe := Frame.of_request p record.index token .barrier 0
      cases hfail : p.failure with
      | true =>
        rw [request_of_failure hfail] at hframe ⊢
        exact .single h hframe hi (fun _ _ => .inr (.inl (by simp))) (by simp)
      | false =>
        rw [show 0 = Op.barrier.bytes from rfl, request_eq_post hr hfail hi] at hframe ⊢
        refine .single ?_ hframe hi (fun _ hmem => .inr (waits_post hmem _)) (by simp)
        exact h.post hfail hr hopen hprom rfl hopen rfl htrk.closing_eq (by simp)
          (by simp [hprom])

theorem Inv.fenceSlots (h : p.Inv parser) (source : Option S) (indices : List (Fin n)) :
    Fenced parser p (p.fenceSlots source indices).1 source (p.fenceSlots source indices).2.1
      (p.fenceSlots source indices).2.2 indices := by
  -- The slots are fenced from the left, so the induction adds one at the end.
  induction indices using List.reverseRecOn with
  | nil => exact ⟨h, Frame.refl p, by simp, by simp [Pool.fenceSlots]⟩
  | append_singleton indices i ih =>
    have hstep : p.fenceSlots source (indices ++ [i]) =
        (((p.fenceSlots source indices).1.fenceSlot source i).1,
          (p.fenceSlots source indices).2.1 ++
            ((p.fenceSlots source indices).1.fenceSlot source i).2.1,
          (p.fenceSlots source indices).2.2 ++
            ((p.fenceSlots source indices).1.fenceSlot source i).2.2) := by
      simp [Pool.fenceSlots]
    rw [hstep]
    have hslot := ih.inv.fenceSlot source i
    refine ⟨hslot.inv, ih.frame.trans hslot.frame, ?_, ?_⟩
    · intro i' hi' token htoken request hmem
      rcases mem_append.mp hi' with hi' | hi'
      · rcases ih.covered i' hi' token htoken request hmem with hskip | hwaits
        · left
          rw [map_append]
          exact mem_append_left _ hskip
        · exact .inr (hwaits.mono hslot.frame (subset_append_left ..))
      · obtain rfl := mem_singleton.mp hi'
        obtain ⟨_, hlater⟩ := ih.frame.sentBy token
        have hmem' : request ∈ (p.fenceSlots source indices).1.log.sentBy token := by
          rw [hlater]
          exact mem_append_left _ hmem
        rcases hslot.covered i' mem_cons_self token ((ih.frame.slots i').trans htoken) request
          hmem' with hskip | hwaits
        · left
          rw [map_append]
          exact mem_append_right _ hskip
        · exact .inr (hwaits.mono (Frame.refl _) (subset_append_right ..))
    · exact forall_mem_append.mpr ⟨ih.skipped, hslot.skipped⟩

theorem Inv.fence (h : p.Inv parser) (source : Option S) : (p.fence source).Inv parser := by
  have hfenced := h.fenceSlots source (List.finRange n)
  unfold Pool.fence
  refine { hfenced.inv with tracks := ?_, wired := ?_, fences := ?_ }
  · intro token record hr
    exact (hfenced.inv.tracks token record hr).congr (.refl record) rfl rfl fun _ _ => Iff.rfl
  · intro hfail i
    have hw := hfenced.inv.wired hfail i
    exact { hw with }
  · intro fence hmem
    rcases mem_append.mp hmem with hmem | hmem
    · have hc := hfenced.inv.fences fence hmem
      exact { hc with }
    · rw [mem_singleton.mp hmem]
      obtain ⟨_, hlater⟩ := hfenced.frame.posted
      refine ⟨?_, ?_, hfenced.skipped⟩
      · simp only [hlater, length_append]
        omega
      · intro request hreq hskip
        simp only [hlater, take_left] at hreq
        obtain ⟨record, hr⟩ := Option.ne_none_iff_exists'.mp (h.known request hreq)
        cases hcl : record.closed with
        | true =>
          obtain ⟨result, hres, hid⟩ := h.handed_of_closed hreq hr hcl
          refine .inl ⟨result, ?_, hid⟩
          have hsame := hfenced.frame.handedTo request.token
          exact hsame.symm ▸ hres
        | false =>
          have hlive := h.live request.token record hr hcl
          rcases hfenced.covered record.index (mem_finRange _) request.token hlive request
            (mem_filter.mpr ⟨hreq, decide_eq_true rfl⟩) with hskipped | hwaits
          · exact absurd hskipped hskip
          · exact .inr hwaits

end Fence

/-! ## Every event -/

theorem Inv.close (h : p.Inv parser) : p.close.Inv parser := by
  have hclg : ({ p with closing := true }).Inv parser :=
    { h with wired := fun hfail i =>
        (h.wired hfail i).congr rfl le_rfl fun _ _ => ⟨rfl, rfl, fun _ _ => rfl⟩ }
  refine foldlRecOn _ _ hclg fun q hq i _ => ?_
  split
  · exact hq.closeSession _
  · exact hq

end Pool

section Run

variable [DecidableEq S]

theorem Pool.Inv.step {p : Pool n σ A S} (h : p.Inv parser) (limit : ℕ) (event : Event n S) :
    (step parser limit p event).Inv parser := by
  cases event with
  | attach valid => exact h.attach valid
  | send token bytes => exact h.send token bytes
  | destroy token => exact h.destroy token
  | closeSession token => exact h.closeSession token
  | fence source => exact h.fence source
  | close => exact h.close
  | work i => exact h.work i
  | message i reaction => exact h.handleMessage limit i reaction
  | workerFailure => exact h.handleFailure

theorem run_inv (parser : Parser σ A) (limit : ℕ) (events : List (Event n S)) :
    (run parser limit events).Inv parser :=
  foldlRecOn events _ .start fun _ h event _ => h.step limit event

/-- Over any run of attaches, data, worker results, closes and fences, connections do not mix: a
slot has one live connection at a time, each connection gets the results of its own requests in
order, its pending bytes are those that were not acknowledged, and a fence has waited for all
requests before it but those of connections known to belong to another source. -/
theorem run_isolated (parser : Parser σ A) (limit : ℕ) (events : List (Event n S)) :
    (run parser limit events).Isolated parser := by
  have hinv := run_inv parser limit events
  generalize run parser limit events = p at hinv
  refine ⟨?_, ?_, ?_, ?_, ?_⟩
  · intro token token' record record' hr hr' hopen hopen' hindex
    have hlive := hinv.live token record hr hopen
    have hlive' := hinv.live token' record' hr' hopen'
    rw [hindex, hlive'] at hlive
    exact (Option.some.inj hlive).symm
  · intro token
    cases hr : p.records token with
    | some record => exact (hinv.tracks token record hr).delivered
    | none =>
      rw [hinv.handedTo_eq_nil hr]
      exact nil_prefix
  · intro token record hr
    exact (hinv.tracks token record hr).pending
  · intro fence hmem hreso request hreq hskip
    have hpost := mem_of_mem_take hreq
    obtain ⟨record, hr⟩ := Option.ne_none_iff_exists'.mp (hinv.known request hpost)
    rcases (hinv.fences fence hmem).covered request hreq hskip with
      hhand | hnone | ⟨id, hid, hfoll⟩
    · exact hhand
    · obtain ⟨_, -, h⟩ := hreso none hnone
      simp at h
    · obtain ⟨_, hid', heq⟩ := hreso _ hid
      cases heq
      exact (hinv.tracks request.token record hr).handed_of_follows hfoll hid'
  · exact fun fence hmem => (hinv.fences fence hmem).skipped

/-- Over any run, a connection is attached by its first request and closed by its last one only.
Once it is over, it has got the results of all its requests. -/
theorem run_requests (parser : Parser σ A) (limit : ℕ) (events : List (Event n S)) :
    let p := run parser limit events
    (p.log.posted.map Request.id).Nodup ∧ ∀ token record, p.records token = some record →
      (∃ request, (p.log.sentBy token).head? = some request ∧
        ∃ valid, request.op = .attach valid) ∧
      (∀ before request after, p.log.sentBy token = before ++ request :: after →
        request.op = .close → after = []) ∧
      (record.closed = true →
        p.log.handedTo token = (replay parser none (p.log.sentBy token)).2) := by
  intro p
  have hinv : p.Inv parser := run_inv parser limit events
  refine ⟨hinv.nodup, fun token record hr => ?_⟩
  have htrk := hinv.tracks token record hr
  refine ⟨htrk.attached, fun before request after hsent hclose => ?_, fun hclosed => ?_⟩
  · by_cases hid : ∃ id, record.closePromise = some (some id)
    · obtain ⟨id, hid⟩ := hid
      obtain ⟨earlier, last, hlast, -, -, hearlier⟩ := htrk.closes id hid
      rcases eq_nil_or_concat after with hnil | ⟨between, request', rfl⟩
      · exact hnil
      · have hsplit : (before ++ request :: between) ++ [request'] = earlier ++ [last] := by
          rw [← hlast, hsent, concat_eq_append, append_assoc, cons_append]
        have hdrop := (append_inj' hsplit rfl).1
        exact absurd hclose (hearlier request (hdrop ▸ by simp))
    · exact absurd hclose (htrk.unclosed (not_exists.mp hid) request (by simp [hsent]))
  · exact htrk.delivered.eq_of_length (by rw [length_replay, htrk.finished hclosed])

end Run

/-- A session that does nothing -/
def idleParser : Parser Unit Unit where
  start _ := ()
  recvMsg _ _ := { session := () }
  closeSession _ := { session := () }
  clearBuffer _ := ()
  bufferedMessageBytes _ := 0

/-- A fence for a source leaves out the connection of another one: it is resolved at once, and the
byte that was sent before it is still under way. -/
theorem fence_of_other_source_leaves_request :
    ∃ events : List (Event 1 ℕ), ∃ fence ∈ (run idleParser 100 events).log.fences,
      (run idleParser 100 events).log.Resolved fence ∧
      ∃ request ∈ (run idleParser 100 events).log.posted.take fence.posted,
        request.op = .data [3] ∧ ¬ (run idleParser 100 events).log.Handed request := by
  let events : List (Event 1 ℕ) :=
    [.attach true, .work 0, .message 0 { source := some 1 }, .send 1 [3], .fence (some 2)]
  have hlog : (run idleParser 100 events).log =
      ⟨[⟨2, 1, .attach true⟩, ⟨3, 1, .data [3]⟩], [(1, ⟨2, 1, [], 0, false, false⟩)], [2],
        [⟨some 2, [], [(1, 1)], 2⟩]⟩ := rfl
  refine ⟨events, ⟨some 2, [], [(1, 1)], 2⟩, by simp [hlog], ?_, ⟨3, 1, .data [3]⟩,
    by simp [hlog], rfl, ?_⟩
  · simp [Log.Resolved]
  · simp [hlog, Log.Handed, Log.handedTo]

end Bmp.IngestPool
