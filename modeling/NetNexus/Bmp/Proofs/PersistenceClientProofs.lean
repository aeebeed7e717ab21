import NetNexus.Bmp.PersistenceClient

/-!
# The queue in front of the store delivers in order

The client always holds what the store has not acknowledged, as one list numbered from the last
acknowledged mutation on. At most one batch is under way, under a number that the store has not
seen before it was first sent.
-/

namespace Bmp.PersistenceClient

open List PersistenceClient.Client

variable {M : Type} {options : Options}

/-! ## What signals leave alone -/

namespace Client

variable (c : Client M)

/-- The client without the state of its timers and listeners. -/
def core : Client M :=
  { c with paused := false, flushTimer := false, idleWaiters := [], fenceWaiters := [],
           notices := [] }

/-- The queue and the batch in flight. -/
def contents : Client M :=
  { c.core with retryTimer := false, failure := false, batchSequence := 0, requests := [] }

/-- All but the queue and its counters. -/
def carrier : Client M :=
  { c.core with queue := [], queueHead := 0, queueBytes := 0, inFlightBytes := 0,
                mutationSequence := 0 }

theorem core_updateBackpressure : (c.updateBackpressure options).core = c.core := by
  unfold updateBackpressure
  dsimp only
  split
  · rfl
  · split <;> rfl

theorem core_scheduleFlush : c.scheduleFlush.core = c.core := by
  unfold scheduleFlush
  split <;> rfl

theorem core_resolveIdleWaitersIfReady : c.resolveIdleWaitersIfReady.core = c.core := by
  unfold resolveIdleWaitersIfReady
  split <;> rfl

theorem core_resolveFenceWaiters : c.resolveFenceWaiters.core = c.core := rfl

theorem core_sendInFlightBatch : c.sendInFlightBatch.core = c.core.sendInFlightBatch.core := by
  have hin : c.core.inFlight = c.inFlight := rfl
  have hfail : c.core.failure = c.failure := rfl
  unfold sendInFlightBatch
  rw [hin, hfail]
  cases c.inFlight with
  | none => rfl
  | some _ =>
    dsimp only
    split <;> rfl

theorem core_handleWorkerFailure :
    c.handleWorkerFailure.core = { c.core with failure := true } := by
  unfold handleWorkerFailure
  split
  · rename_i h
    simp [core, h]
  · rfl

variable {c} {pending : Pending M}

theorem inFlightEntries_eq (hp : c.inFlight = some pending) :
    c.inFlightEntries = pending.entries := by
  simp [inFlightEntries, hp]

theorem queued_eq_nil (h : c.getQueueLength = 0) : c.queued = [] :=
  eq_nil_of_length_eq_zero (length_drop.trans h)

/-- The client after the batch in flight was acknowledged. -/
def acknowledge (c : Client M) (pending : Pending M) : Client M :=
  { c with
    committedMutationSequence := c.lastSequence pending
    inFlight := none
    inFlightBytes := 0 }

theorem core_handleSuccess :
    (c.handleSuccess options pending).core = (c.acknowledge pending).core := by
  unfold handleSuccess
  rw [core_resolveFenceWaiters, core_resolveIdleWaitersIfReady]
  split
  · rw [core_scheduleFlush, core_updateBackpressure]
    rfl
  · rw [core_updateBackpressure]
    rfl

end Client

theorem drop_zipIdx {α : Type} (l : List α) (n k : ℕ) :
    (l.zipIdx n).drop k = (l.drop k).zipIdx (n + k) := by
  apply ext_getElem?
  intro i
  simp only [getElem?_drop, getElem?_zipIdx, Nat.add_assoc]

/-! ## What the client holds -/

/-- The client holds the mutations after the last acknowledged one, in order and numbered. -/
structure Client.Holds (c : Client M) (enqueued : List M) : Prop where
  head_le : c.queueHead ≤ c.queue.length
  sequence : c.mutationSequence = enqueued.length
  committed_le : c.committedMutationSequence ≤ enqueued.length
  held : (c.inFlightEntries ++ c.queued).map (fun entry => (entry.mutation, entry.sequence)) =
    (enqueued.drop c.committedMutationSequence).zipIdx (c.committedMutationSequence + 1)
  queue_bytes : c.queueBytes = bytesOf c.queued
  in_flight_bytes : c.inFlightBytes = bytesOf c.inFlightEntries
  pending_bytes : ∀ pending ∈ c.inFlight, pending.bytes = bytesOf pending.entries

variable {pending : Pending M}

namespace Client.Holds

variable {c c' : Client M} {enqueued : List M}

section

variable (h : c.Holds enqueued)
include h

theorem of_contents_eq (hc : c'.contents = c.contents) : c'.Holds enqueued := by
  have hconts : c'.contents.Holds enqueued := by
    rw [hc]
    exact { h with }
  exact { hconts with }

theorem of_core_eq (hc : c'.core = c.core) : c'.Holds enqueued :=
  h.of_contents_eq (congrArg contents hc : c'.core.contents = c.core.contents)

theorem mutations : enqueued.drop c.committedMutationSequence =
    (c.inFlightEntries ++ c.queued).map Entry.mutation := by
  have hfst := congrArg (List.map Prod.fst) h.held
  rw [map_map, zipIdx_map_fst] at hfst
  exact hfst.symm

theorem length_inFlightEntries_le :
    c.committedMutationSequence + c.inFlightEntries.length ≤ enqueued.length := by
  have hlen := congrArg List.length h.mutations
  have hle := h.committed_le
  simp only [length_drop, length_map, length_append] at hlen
  omega

theorem lastSequence_eq (hp : c.inFlight = some pending) :
    c.lastSequence pending = c.committedMutationSequence + pending.entries.length := by
  have hheld := h.held
  rw [inFlightEntries_eq hp] at hheld
  unfold lastSequence
  cases hlast : pending.entries.getLast? with
  | none => simp [getLast?_eq_none_iff.mp hlast]
  | some _ =>
    rw [getLast?_eq_getElem?] at hlast
    have hpos : pending.entries.length - 1 < pending.entries.length :=
      (List.getElem?_eq_some_iff.mp hlast).1
    have hat := congrArg (fun l => l[pending.entries.length - 1]?) hheld
    simp only [map_append, getElem?_zipIdx] at hat
    rw [getElem?_append_left (by simpa using hpos), getElem?_map, hlast] at hat
    obtain ⟨a, -, ha⟩ := Option.map_eq_some_iff.mp hat.symm
    have hseq := congrArg Prod.snd ha
    simp only at hseq
    simp only
    omega

end

end Client.Holds

/-! ## The batch under way -/

/-- Nothing is under way, a request is, or a reply. -/
inductive Client.Transit (c : Client M) (replies : List (ℕ × Bool)) (batches : List ℕ) : Prop
  | idle (requests : c.requests = []) (replies_nil : replies = [])
  | sent (pending : Pending M) (in_flight : c.inFlight = some pending)
      (requests : c.requests = [⟨pending.batch, pending.entries.map Entry.mutation⟩])
      (replies_nil : replies = []) (no_failure : c.failure = false)
      (no_timer : c.retryTimer = false)
  | answered (pending : Pending M) (success : Bool) (in_flight : c.inFlight = some pending)
      (requests : c.requests = []) (reply : replies = [(pending.batch, success)])
      (applied : success = true → pending.batch ∈ batches) (no_timer : c.retryTimer = false)

theorem Client.Transit.congr {c c' : Client M} {replies : List (ℕ × Bool)} {batches : List ℕ}
    (h : c.Transit replies batches) (hin : c'.inFlight = c.inFlight)
    (hreqs : c'.requests = c.requests) (hflr : c'.failure = c.failure)
    (htimer : c'.retryTimer = c.retryTimer) : c'.Transit replies batches := by
  cases h with
  | idle h₁ h₂ => exact .idle (hreqs.trans h₁) h₂
  | sent p h₁ h₂ h₃ h₄ h₅ =>
    exact .sent p (hin.trans h₁) (hreqs.trans h₂) h₃ (hflr.trans h₄) (htimer.trans h₅)
  | answered p ok h₁ h₂ h₃ h₄ h₅ =>
    exact .answered p ok (hin.trans h₁) (hreqs.trans h₂) h₃ h₄ (htimer.trans h₅)

/-- How many of the mutations in flight the store has. -/
def Client.landed (c : Client M) (batches : List ℕ) : ℕ :=
  match c.inFlight with
  | some pending => if pending.batch ∈ batches then pending.entries.length else 0
  | none => 0

/-- How the client stands to the store and the messages between them. -/
structure Client.Ships (c : Client M) (replies : List (ℕ × Bool)) (store : Store M)
    (enqueued : List M) : Prop where
  transit : c.Transit replies store.batches
  retry : c.retryTimer = true → c.inFlight ≠ none
  batch_eq : ∀ pending ∈ c.inFlight, pending.batch = c.batchSequence
  batches_le : ∀ batch ∈ store.batches, batch ≤ c.batchSequence
  stored : ∃ n, store.committed = enqueued.take n ∧ n ≤ enqueued.length ∧
    c.committedMutationSequence + c.landed store.batches ≤ n ∧
    (c.failure = false → n = c.committedMutationSequence + c.landed store.batches)

namespace Client.Ships

variable {c c' : Client M} {replies : List (ℕ × Bool)} {store : Store M} {enqueued : List M}

section

variable (h : c.Ships replies store enqueued)
include h

theorem of_carrier_eq (hc : c'.carrier = c.carrier) : c'.Ships replies store enqueued := by
  have hcarr : c'.carrier.Ships replies store enqueued := by
    rw [hc]
    exact { h with transit := h.transit.congr rfl rfl rfl rfl }
  exact { hcarr with transit := hcarr.transit.congr rfl rfl rfl rfl }

theorem of_core_eq (hc : c'.core = c.core) : c'.Ships replies store enqueued :=
  h.of_carrier_eq (congrArg carrier hc : c'.core.carrier = c.core.carrier)

theorem idle_of_inFlight_eq_none (hn : c.inFlight = none) : c.requests = [] ∧ replies = [] := by
  cases h.transit with
  | idle h₁ h₂ => exact ⟨h₁, h₂⟩
  | sent p h₁ | _ p _ h₁ => simp [hn] at h₁

theorem idle_of_retryTimer (ht : c.retryTimer = true) : c.requests = [] ∧ replies = [] := by
  cases h.transit with
  | idle h₁ h₂ => exact ⟨h₁, h₂⟩
  | sent p _ _ _ _ h₁ | _ p _ _ _ _ _ h₁ => simp [ht] at h₁

end

end Client.Ships

/-! ## Taking a batch -/

theorem bytesOf_append (l l' : List (Entry M)) : bytesOf (l ++ l') = bytesOf l + bytesOf l' := by
  simp [bytesOf]

theorem bytesOf_take_add_drop (l : List (Entry M)) (k : ℕ) :
    bytesOf (l.take k) + bytesOf (l.drop k) = bytesOf l := by
  rw [← bytesOf_append, take_append_drop]

namespace Client

variable (options : Options)

theorem takeLoop_eq (entries taken : List (Entry M)) (bytes : ℕ) :
    ∃ k, takeLoop options taken bytes entries =
      (taken ++ entries.take k, bytes + bytesOf (entries.take k)) := by
  induction entries generalizing taken bytes with
  | nil => exact ⟨0, by simp [takeLoop, bytesOf]⟩
  | cons next _ ih =>
    unfold takeLoop
    by_cases hsize : options.batchSize ≤ taken.length
    · exact ⟨0, by simp [hsize, bytesOf]⟩
    rw [if_neg hsize]
    by_cases hbytes : 0 < taken.length ∧ options.batchBytes < bytes + next.bytes
    · exact ⟨0, by rw [if_pos hbytes]; simp [bytesOf]⟩
    rw [if_neg hbytes]
    obtain ⟨k, hk⟩ := ih _ _
    refine ⟨k + 1, ?_⟩
    rw [hk]
    simp [bytesOf, Nat.add_assoc]

variable (c : Client M)

theorem compact_eq (hle : c.queueHead ≤ c.queue.length) :
    ∃ queue queueHead, c.compact = { c with queue := queue, queueHead := queueHead } ∧
      queueHead ≤ queue.length ∧ queue.drop queueHead = c.queued := by
  unfold compact
  split
  · exact ⟨c.queued, 0, rfl, Nat.zero_le _, rfl⟩
  · exact ⟨c.queue, c.queueHead, rfl, hle, rfl⟩

/-- The batch in flight is posted once more, or nothing changes. -/
theorem sendInFlightBatch_cases : c.sendInFlightBatch = c ∨
    ∃ pending, c.inFlight = some pending ∧ c.failure = false ∧
      c.sendInFlightBatch = { c with
        inFlight := some { pending with attempts := pending.attempts + 1 }
        requests := c.requests ++ [⟨pending.batch, pending.entries.map Entry.mutation⟩] } := by
  unfold sendInFlightBatch
  split
  · rename_i pending hp
    split
    · exact .inl rfl
    · rename_i hfail
      exact .inr ⟨pending, hp, by simpa using hfail, rfl⟩
  · exact .inl rfl

/-- The client after the first `k` queued entries were sent. -/
def launch (c : Client M) (queue : List (Entry M)) (queueHead k : ℕ) : Client M :=
  { c with
    queue := queue
    queueHead := queueHead
    queueBytes := c.queueBytes - bytesOf (c.queued.take k)
    inFlightBytes := bytesOf (c.queued.take k)
    batchSequence := c.batchSequence + 1
    inFlight := some ⟨c.queued.take k, bytesOf (c.queued.take k), c.batchSequence + 1, 1⟩
    requests := c.requests ++ [⟨c.batchSequence + 1, (c.queued.take k).map Entry.mutation⟩] }

/-- A batch of the first `k` queued entries is sent. -/
structure Launched (c c' : Client M) (k : ℕ) : Prop where
  idle : c.inFlight = none
  no_failure : c.failure = false
  core_eq : ∃ queue queueHead, queueHead ≤ queue.length ∧
    queue.drop queueHead = c.queued.drop k ∧ c'.core = (c.launch queue queueHead k).core

/-- `flushNextBatch` sends a batch, or changes nothing but whom it tells. -/
theorem flushNextBatch_cases
    (hle : c.queueHead ≤ c.queue.length) : (c.flushNextBatch options).core = c.core ∨
      ∃ k, c.Launched (c.flushNextBatch options) k := by
  unfold flushNextBatch
  split
  · exact .inl (core_resolveIdleWaitersIfReady c)
  rename_i hguard
  simp only [Bool.or_eq_true, not_or, Bool.not_eq_true, Option.isSome_eq_false_iff,
    Option.isNone_iff_eq_none] at hguard
  obtain ⟨⟨hnone, -⟩, hfail⟩ := hguard
  obtain ⟨k, hk⟩ := takeLoop_eq options c.queued [] 0
  right
  refine ⟨k, hnone, hfail, ?_⟩
  simp only [hk, nil_append, Nat.zero_add]
  obtain ⟨queue, queueHead, hcomp, hhead, hdrop⟩ := compact_eq
    { c with queueHead := c.queueHead + (c.queued.take k).length,
             queueBytes := c.queueBytes - bytesOf (c.queued.take k) }
    (by simp only [queued, length_take, length_drop]; omega)
  refine ⟨queue, queueHead, hhead, ?_, ?_⟩
  · rw [hdrop]
    have hmin : c.queued.drop (c.queued.take k).length = c.queued.drop k := by
      rw [length_take]
      rcases Nat.le_total k c.queued.length with hlek | hlek
      · rw [Nat.min_eq_left hlek]
      · rw [Nat.min_eq_right hlek, drop_length, drop_eq_nil_of_le hlek]
    rw [← hmin]
    exact drop_drop.symm
  · simp only [hcomp]
    rw [core_sendInFlightBatch, core_updateBackpressure]
    simp [sendInFlightBatch, core, launch, hfail]

end Client

/-! ## Each change keeps what is held -/

namespace Client.Holds

variable {c c' : Client M} {enqueued : List M}

section

variable (h : c.Holds enqueued)
include h

theorem launched {k : ℕ} (hl : c.Launched c' k) : c'.Holds enqueued := by
  obtain ⟨queue, queueHead, hhead, hdrop, hcore⟩ := hl.core_eq
  refine of_core_eq ?_ hcore
  have hsum := bytesOf_take_add_drop c.queued k
  have hbytes := h.queue_bytes
  have hheld := h.held
  simp only [inFlightEntries, hl.idle] at hheld
  refine ⟨hhead, h.sequence, h.committed_le, ?_, ?_, rfl, ?_⟩
  · show List.map _ (c.queued.take k ++ queue.drop queueHead) = _
    rw [hdrop, take_append_drop]
    exact hheld
  · show c.queueBytes - _ = (bytesOf (queue.drop queueHead))
    rw [hdrop]
    omega
  · rintro - ⟨⟩
    rfl

theorem pushed (mutation : M) (bytes : ℕ) : { c with
    mutationSequence := c.mutationSequence + 1
    queue := c.queue ++ [Entry.mk mutation bytes (c.mutationSequence + 1)]
    queueBytes := c.queueBytes + bytes }.Holds (enqueued ++ [mutation]) := by
  have hle := h.committed_le
  have hqueued : (c.queue ++ [Entry.mk mutation bytes (c.mutationSequence + 1)]).drop c.queueHead =
      c.queued ++ [Entry.mk mutation bytes (c.mutationSequence + 1)] :=
    drop_append_of_le_length h.head_le
  refine ⟨?_, ?_, ?_, ?_, ?_, h.in_flight_bytes, h.pending_bytes⟩
  · have hhead := h.head_le
    simp only [length_append]
    omega
  · simp [h.sequence]
  · simp only [length_append]
    omega
  · show List.map _ (c.inFlightEntries ++ List.drop c.queueHead _) = _
    rw [hqueued, ← append_assoc, map_append, h.held, drop_append_of_le_length hle, zipIdx_append]
    simp only [map_cons, h.sequence, length_drop]
    congr 3
    omega
  · have hbytes := h.queue_bytes
    show c.queueBytes + bytes = (bytesOf (List.drop c.queueHead _))
    rw [hqueued, hbytes]
    simp [bytesOf]

theorem acknowledged (hp : c.inFlight = some pending) : (c.acknowledge pending).Holds enqueued := by
  have hlast := h.lastSequence_eq hp
  have hents := inFlightEntries_eq hp
  have hlen := h.length_inFlightEntries_le
  rw [hents] at hlen
  refine ⟨h.head_le, h.sequence, ?_, ?_, h.queue_bytes, rfl, by simp [acknowledge]⟩
  · show c.lastSequence pending ≤ _
    omega
  · show List.map _ ([] ++ c.queued) = (enqueued.drop (c.lastSequence pending)).zipIdx _
    have hheld := congrArg (List.drop pending.entries.length) h.held
    rw [hents, map_append, drop_left' (by simp), drop_zipIdx, drop_drop]
      at hheld
    rw [nil_append, hheld, hlast]
    congr 1
    show _ = c.lastSequence pending + 1
    omega

theorem requeued (hp : c.inFlight = some pending) : { c with
    inFlight := none
    inFlightBytes := 0
    queue := pending.entries ++ c.queued
    queueHead := 0
    queueBytes := c.queueBytes + pending.bytes }.Holds enqueued := by
  have hheld := h.held
  have hbytes := h.queue_bytes
  have hpend := h.pending_bytes pending hp
  rw [inFlightEntries_eq hp] at hheld
  refine ⟨Nat.zero_le _, h.sequence, h.committed_le, hheld, ?_, rfl, by simp⟩
  show c.queueBytes + pending.bytes = bytesOf (pending.entries ++ c.queued)
  rw [bytesOf_append]
  omega

theorem sent : c.sendInFlightBatch.Holds enqueued := by
  rcases c.sendInFlightBatch_cases with heq | ⟨pending, hp, -, heq⟩
  · rw [heq]
    exact h
  rw [heq]
  have hheld := h.held
  have hbytes := h.in_flight_bytes
  rw [inFlightEntries_eq hp] at hheld hbytes
  refine ⟨h.head_le, h.sequence, h.committed_le, hheld, h.queue_bytes, hbytes, ?_⟩
  rintro _ ⟨⟩
  exact h.pending_bytes pending hp

theorem flushed : (c.flushNextBatch options).Holds enqueued := by
  rcases c.flushNextBatch_cases options h.head_le with hcore | ⟨k, hl⟩
  · exact h.of_core_eq hcore
  · exact h.launched hl

theorem handleWorkerFailure : c.handleWorkerFailure.Holds enqueued := by
  have hfld : { c with failure := true }.Holds enqueued := h.of_contents_eq rfl
  exact hfld.of_core_eq c.core_handleWorkerFailure

theorem handleReply (batch : ℕ) (success : Bool) :
    (c.handleReply options batch success).Holds enqueued := by
  unfold Client.handleReply
  cases hp : c.inFlight with
  | none => exact h
  | some _ =>
    dsimp only
    split
    swap
    · exact h
    cases success with
    | true =>
      exact (h.acknowledged hp).of_core_eq core_handleSuccess
    | false =>
      simp only [Bool.false_eq_true, if_false, handleError]
      split
      · exact h.of_contents_eq rfl
      · exact (h.requeued hp).handleWorkerFailure.of_core_eq (core_updateBackpressure _)

end

end Client.Holds

/-! ## Each change keeps the batch under way -/

namespace Client.Ships

variable {c c' : Client M} {replies : List (ℕ × Bool)} {store : Store M} {enqueued : List M}

theorem landed_eq_zero (hn : c.inFlight = none) (batches : List ℕ) : c.landed batches = 0 := by
  simp [landed, hn]

section

variable (h : c.Ships replies store enqueued)
include h

/-- A batch that is sent for the first time is new to the store. -/
theorem launched {k : ℕ} (hl : c.Launched c' k) : c'.Ships replies store enqueued := by
  obtain ⟨queue, queueHead, -, -, hcore⟩ := hl.core_eq
  refine of_core_eq ?_ hcore
  obtain ⟨hreqs, hreps⟩ := h.idle_of_inFlight_eq_none hl.idle
  have hretry : c.retryTimer = false := by
    by_contra hne
    exact h.retry (by simpa using hne) hl.idle
  have hnew : c.batchSequence + 1 ∉ store.batches := by
    intro hmem
    have hle := h.batches_le _ hmem
    omega
  have hlanded : (c.launch queue queueHead k).landed store.batches = c.landed store.batches := by
    rw [landed_eq_zero hl.idle]
    simp [landed, launch, hnew]
  refine ⟨.sent _ rfl ?_ hreps hl.no_failure hretry, by simp [launch], ?_, ?_, ?_⟩
  · simp [launch, hreqs]
  · rintro - ⟨⟩
    rfl
  · intro batch hbatch
    have hle' := h.batches_le batch hbatch
    simp only [launch]
    omega
  · rw [hlanded]
    exact h.stored

theorem flushed (hle : c.queueHead ≤ c.queue.length) :
    (c.flushNextBatch options).Ships replies store enqueued := by
  rcases c.flushNextBatch_cases options hle with hcore | ⟨k, hl⟩
  · exact h.of_core_eq hcore
  · exact h.launched hl

theorem retried : c.fireRetry.Ships replies store enqueued := by
  unfold fireRetry
  split
  swap
  · exact h
  rename_i htimer
  obtain ⟨hreqs, hreps⟩ := h.idle_of_retryTimer htimer
  rcases sendInFlightBatch_cases { c with retryTimer := _ } with
    heq | ⟨pending, hp, hfail, heq⟩
  · rw [heq]
    exact { h with transit := .idle hreqs hreps, retry := by simp }
  rw [heq]
  have hbatch := h.batch_eq pending hp
  have hstore := h.stored
  simp only [landed, show c.inFlight = some pending from hp] at hstore
  refine ⟨.sent _ rfl ?_ hreps hfail rfl, by simp, ?_, h.batches_le, hstore⟩
  · simp [hreqs]
  · rintro _ ⟨⟩
    exact hbatch

theorem acknowledged (hc : c.Holds enqueued) (hp : c.inFlight = some pending)
    (hreqs : c.requests = []) (hbatch : pending.batch ∈ store.batches)
    (htimer : c.retryTimer = false) : (c.acknowledge pending).Ships [] store enqueued := by
  have hlanded : c.landed store.batches = pending.entries.length := by simp [landed, hp, hbatch]
  have hstore := h.stored
  rw [hlanded, ← hc.lastSequence_eq hp] at hstore
  exact ⟨.idle hreqs rfl, by simp [acknowledge, htimer], by simp [acknowledge], h.batches_le,
    hstore⟩

/-- A batch that is given up may have been applied. -/
theorem requeued (hreqs : c.requests = [])
    (htimer : c.retryTimer = false) (queue : List (Entry M)) (queueBytes : ℤ) : { c with
      inFlight := none
      inFlightBytes := 0
      queue := queue
      queueHead := 0
      queueBytes := queueBytes
      failure := true }.Ships [] store enqueued := by
  obtain ⟨n, htake, hlen, _, -⟩ := h.stored
  exact ⟨.idle hreqs rfl, by simp [htimer], by simp, h.batches_le, n, htake, hlen,
    by simp only [landed]; omega, by simp⟩

theorem handleReply (hc : c.Holds enqueued) {batch : ℕ} {success : Bool} {rest : List (ℕ × Bool)}
    (hreps : replies = (batch, success) :: rest) :
    (c.handleReply options batch success).Ships rest store enqueued := by
  cases h.transit with
  | idle _ hnil | sent _ _ _ hnil => simp [hnil] at hreps
  | answered pending success' hp hreqs hreply happl htimer =>
    obtain ⟨⟨rfl, rfl⟩, rfl⟩ : (pending.batch = batch ∧ success' = success) ∧ rest = [] := by
      simpa [hreply] using hreps
    unfold Client.handleReply
    simp only [hp, if_true]
    cases success' with
    | true =>
      exact (h.acknowledged hc hp hreqs (happl rfl) htimer).of_core_eq core_handleSuccess
    | false =>
      simp only [Bool.false_eq_true, if_false, handleError]
      split
      · exact { h with transit := .idle hreqs rfl, retry := by simp [hp] }
      · refine (h.requeued hreqs htimer (pending.entries ++ c.queued)
          (c.queueBytes + pending.bytes)).of_core_eq ?_
        rw [core_updateBackpressure, core_handleWorkerFailure]
        rfl

theorem workerFailed : { c.handleWorkerFailure with requests := [] }.Ships
    ((replies.map Prod.fst ++ c.requests.map Request.batch).map fun batch => (batch, false))
    store enqueued := by
  have hcore : { c.handleWorkerFailure with requests := [] }.core =
      { c with failure := true, requests := [] }.core := by
    have hflr := c.core_handleWorkerFailure
    simp only [core, Client.mk.injEq] at hflr ⊢
    simp [hflr]
  refine of_core_eq ?_ hcore
  obtain ⟨n, htake, hlen, hle, -⟩ := h.stored
  refine ⟨?_, h.retry, h.batch_eq, h.batches_le, n, htake, hlen, hle, by simp⟩
  cases h.transit with
  | idle hreqs hnil => exact .idle rfl (by simp [hreqs, hnil])
  | sent pending hp hreqs hnil _ htimer =>
    exact .answered pending false hp rfl (by simp [hreqs, hnil]) (by simp) htimer
  | answered pending _ hp hreqs hreply _ htimer =>
    exact .answered pending false hp rfl (by simp [hreqs, hreply]) (by simp) htimer

theorem enqueued_append (later : List M) : c.Ships replies store (enqueued ++ later) := by
  obtain ⟨n, htake, hlen, hle, hn⟩ := h.stored
  refine ⟨h.transit, h.retry, h.batch_eq, h.batches_le, n, ?_, ?_, hle, hn⟩
  · rw [take_append_of_le_length hlen, htake]
  · rw [length_append]
    omega

variable {rest : List (Request M)}

theorem failed {request : Request M} (hr : c.requests = request :: rest) :
    { c with requests := rest }.Ships (replies ++ [(request.batch, false)]) store enqueued := by
  cases h.transit with
  | idle hnil | answered _ _ _ hnil => simp [hnil] at hr
  | sent pending hp hreqs hnil _ htimer =>
    obtain ⟨rfl, rfl⟩ : request = ⟨pending.batch, _⟩ ∧ rest = [] := by
      simpa [hreqs, eq_comm] using hr
    exact { h with transit := .answered pending false hp rfl (by simp [hnil]) (by simp) htimer }

theorem applied (hc : c.Holds enqueued) {request : Request M} (hr : c.requests = request :: rest)
    (success : Bool) : { c with requests := rest }.Ships (replies ++ [(request.batch, success)])
      (store.applyBatch request) enqueued := by
  cases h.transit with
  | idle hnil | answered _ _ _ hnil => simp [hnil] at hr
  | sent pending hp hreqs hnil hfail htimer =>
    obtain ⟨rfl, rfl⟩ : request = ⟨pending.batch, pending.entries.map Entry.mutation⟩ ∧
        rest = [] := by
      simpa [hreqs, eq_comm] using hr
    unfold Store.applyBatch
    split
    · rename_i hmem
      exact { h with
        transit := .answered pending success hp rfl (by simp [hnil]) (fun _ => hmem) htimer }
    rename_i hnew
    have hbatch := h.batch_eq pending hp
    obtain ⟨n, htake, -, -, hn⟩ := h.stored
    have hlen := hc.length_inFlightEntries_le
    have hdrop := hc.mutations
    rw [inFlightEntries_eq hp] at hlen hdrop
    have hbef : n = c.committedMutationSequence := by
      rw [hn hfail]
      simp [landed, hp, hnew]
    have hafter : c.landed (store.batches ++ [pending.batch]) = pending.entries.length := by
      simp [landed, hp]
    refine ⟨.answered pending success hp rfl (by simp [hnil]) (by simp) htimer, h.retry,
      h.batch_eq, ?_, c.committedMutationSequence + pending.entries.length, ?_, hlen, ?_, ?_⟩
    · rw [forall_mem_append, forall_mem_singleton]
      exact ⟨h.batches_le, hbatch.le⟩
    · rw [take_add, hdrop, map_append, take_left' (by simp), htake, hbef]
    · exact Nat.le_of_eq (congrArg _ hafter)
    · exact fun _ => congrArg _ hafter.symm

end

end Client.Ships

/-! ## What is told -/

theorem alternating_succ (n : ℕ) : alternating (n + 1) = alternating n ++ [n % 2 == 0] := by
  simp [alternating, range_succ]

/-- What callers and listeners were told, the notices of the current event last. -/
structure Client.Tells (c : Client M) (trace : List Notice) (fenceCalls : List ℕ) : Prop where
  alternates : ∃ n, (trace ++ c.notices).filterMap Notice.pauses? = alternating n ∧
    c.paused = (n % 2 == 1)
  waiters : ∀ waiter ∈ c.fenceWaiters, fenceCalls[waiter.call]? = some waiter.target
  fences : ∀ call, .fenceResolved call ∈ c.notices →
    ∃ n, fenceCalls[call]? = some n ∧ n ≤ c.committedMutationSequence
  drains : ∀ call, .drainResolved call ∈ c.notices → c.queued = [] ∧ c.inFlight = none

namespace Client.Tells

variable {c c' : Client M} {trace : List Notice} {fenceCalls : List ℕ}

section

variable (h : c.Tells trace fenceCalls)
include h

/-- Before anything is told, everything but the listeners may change. -/
theorem of_quiet (hquiet : c.notices = [])
    (hnoti : c'.notices = []) (hpaus : c'.paused = c.paused)
    (hwait : c'.fenceWaiters = c.fenceWaiters) : c'.Tells trace fenceCalls := by
  refine ⟨?_, ?_, by simp [hnoti], by simp [hnoti]⟩
  · have halte := h.alternates
    rw [hquiet] at halte
    rwa [hnoti, hpaus]
  · rw [hwait]
    exact h.waiters

/-- What is told next is true, too. -/
theorem told {notices : List Notice} {paused : Bool}
    (halte : ∃ n, (trace ++ (c.notices ++ notices)).filterMap Notice.pauses? =
      alternating n ∧ paused = (n % 2 == 1)) (hfences : ∀ call, .fenceResolved call ∈ notices →
      ∃ n, fenceCalls[call]? = some n ∧ n ≤ c.committedMutationSequence)
    (hdrains : ∀ call, .drainResolved call ∈ notices → c.queued = [] ∧ c.inFlight = none) :
    ({ c with paused }.notify notices).Tells trace fenceCalls where
  alternates := halte
  waiters := h.waiters
  fences call hcall := (mem_append.mp hcall).elim (h.fences call) (hfences call)
  drains call hcall := (mem_append.mp hcall).elim (h.drains call) (hdrains call)

/-- A watermark notice that changes the state -/
theorem toggled (notice : Notice) (hntc : notice.pauses? = some (!c.paused)) :
    ({ c with paused := !c.paused }.notify [notice]).Tells trace fenceCalls := by
  obtain ⟨n, htrace, hpaus⟩ := h.alternates
  refine h.told ⟨n + 1, ?_, ?_⟩ ?_ ?_
  · rw [alternating_succ, ← htrace]
    have hparity : (!c.paused) = (n % 2 == 0) := by
      rw [hpaus]
      rcases Nat.mod_two_eq_zero_or_one n with hn | hn <;> simp [hn]
    simp [hntc, hparity]
  · rw [hpaus]
    rcases Nat.mod_two_eq_zero_or_one n with hn | hn <;> simp [Nat.add_mod, hn]
  all_goals
    intro call hmem
    rw [← mem_singleton.mp hmem] at hntc
    simp [Notice.pauses?] at hntc

theorem updateBackpressure : (c.updateBackpressure options).Tells trace fenceCalls := by
  unfold Client.updateBackpressure
  dsimp only
  split
  · rename_i hguard
    have hpaus : c.paused = false := by
      simp only [Bool.and_eq_true, Bool.not_eq_true'] at hguard
      exact hguard.1
    have htold := h.toggled .pause (by simp [hpaus, Notice.pauses?])
    rwa [hpaus] at htold
  · split
    swap
    · exact h
    rename_i hguard
    have hpaus : c.paused = true := by
      simp only [Bool.and_eq_true] at hguard
      exact hguard.1.1
    have htold := h.toggled .resume (by simp [hpaus, Notice.pauses?])
    rwa [hpaus] at htold

theorem notified (notices : List Notice) (hcall : ∀ notice ∈ notices, notice.pauses? = none)
    (hfences : ∀ call, .fenceResolved call ∈ notices →
      ∃ n, fenceCalls[call]? = some n ∧ n ≤ c.committedMutationSequence)
    (hdrains : ∀ call, .drainResolved call ∈ notices → c.queued = [] ∧ c.inFlight = none) :
    (c.notify notices).Tells trace fenceCalls := by
  obtain ⟨n, htrace, hpaus⟩ := h.alternates
  refine h.told ⟨n, ?_, hpaus⟩ hfences hdrains
  have hnil : notices.filterMap Notice.pauses? = [] := filterMap_eq_nil_iff.mpr hcall
  simp [← htrace, hnil]

theorem scheduleFlush : c.scheduleFlush.Tells trace fenceCalls := by
  unfold Client.scheduleFlush
  split
  · exact h
  · exact { h with }

theorem resolveIdleWaitersIfReady : c.resolveIdleWaitersIfReady.Tells trace fenceCalls := by
  unfold Client.resolveIdleWaitersIfReady
  split
  · exact h
  rename_i hguard
  simp only [Bool.or_eq_true, not_or, Bool.not_eq_true, Option.isSome_eq_false_iff,
    Option.isNone_iff_eq_none, decide_eq_true_eq, Nat.not_lt] at hguard
  have hqueued := queued_eq_nil (Nat.le_zero.mp hguard.2)
  have hidle : { c with idleWaiters := [] }.Tells trace fenceCalls := { h with }
  apply hidle.notified
  · simp [Notice.pauses?]
  · simp
  · exact fun _ _ => ⟨hqueued, hguard.1⟩

theorem resolveFenceWaiters : c.resolveFenceWaiters.Tells trace fenceCalls := by
  have hwait : { c with
      fenceWaiters := c.fenceWaiters.filter fun waiter =>
        !decide (waiter.target ≤ c.committedMutationSequence) }.Tells trace fenceCalls :=
    ⟨h.1, fun waiter hmem => h.waiters waiter (mem_filter.mp hmem).1, h.3, h.4⟩
  apply hwait.notified
  · intro notice hmem
    obtain ⟨-, -, rfl⟩ := mem_map.mp hmem
    rfl
  · intro call hcall
    obtain ⟨waiter, hmem, hwtr⟩ := mem_map.mp hcall
    obtain ⟨hmem, hdone⟩ := mem_filter.mp hmem
    obtain rfl : waiter.call = call := by simpa using hwtr
    exact ⟨waiter.target, h.waiters waiter hmem, by simpa using hdone⟩
  · simp

theorem handleWorkerFailure : c.handleWorkerFailure.Tells trace fenceCalls := by
  unfold Client.handleWorkerFailure
  split
  · exact h
  have hfld : { c with failure := true, idleWaiters := [], fenceWaiters := [] }.Tells trace
      fenceCalls := ⟨h.1, by simp, h.3, h.4⟩
  apply hfld.notified
  · intro notice hmem
    simp only [mem_append, mem_map, mem_singleton] at hmem
    rcases hmem with (⟨-, -, rfl⟩ | ⟨-, -, rfl⟩) | rfl <;> rfl
  · simp
  · simp

theorem sendInFlightBatch : c.sendInFlightBatch.Tells trace fenceCalls := by
  rcases c.sendInFlightBatch_cases with heq | ⟨_, hp, -, heq⟩
  · rw [heq]
    exact h
  · rw [heq]
    refine { h with drains := fun call hcall => ?_ }
    have hnone := (h.drains call hcall).2
    simp [hp] at hnone

theorem flushNextBatch (hquiet : c.notices = []) :
    (c.flushNextBatch options).Tells trace fenceCalls := by
  unfold Client.flushNextBatch
  split
  · exact h.resolveIdleWaitersIfReady
  apply sendInFlightBatch
  apply updateBackpressure
  refine h.of_quiet hquiet ?_ ?_ ?_ <;>
  · unfold compact
    split
    · first | exact hquiet | rfl
    · first | exact hquiet | rfl

theorem handleReply (hquiet : c.notices = []) (batch : ℕ) (success : Bool) :
    (c.handleReply options batch success).Tells trace fenceCalls := by
  unfold Client.handleReply
  split
  swap
  · exact h
  rename_i pending _
  split
  swap
  · exact h
  split
  · apply resolveFenceWaiters
    apply resolveIdleWaitersIfReady
    have hack : (c.acknowledge pending).Tells trace fenceCalls :=
      h.of_quiet hquiet hquiet rfl rfl
    split
    · exact hack.updateBackpressure.scheduleFlush
    · exact hack.updateBackpressure
  · unfold handleError
    split
    · exact { h with }
    · apply updateBackpressure
      apply handleWorkerFailure
      exact h.of_quiet hquiet hquiet rfl rfl

end

end Client.Tells

/-! ## Every event -/

/-- What holds of client and store, with the trace up to the current event. -/
structure System.Sound (options : Options) (trace : List Notice) (s : System M) : Prop where
  holds : s.client.Holds s.enqueued
  ships : s.client.Ships s.replies s.store s.enqueued
  tells : s.client.Tells trace s.fenceCalls
  read_only : options.readOnly = true → s.enqueued = []

namespace System.Sound

variable {estimate : M → ℕ} {trace : List Notice} {s : System M}

theorem start : Sound options [] ({} : System M) where
  holds := ⟨le_rfl, rfl, le_rfl, rfl, rfl, rfl, by simp⟩
  ships := ⟨.idle rfl rfl, by simp, by simp, by simp, 0, rfl, le_rfl, le_rfl,
    fun _ => rfl⟩
  tells := ⟨⟨0, rfl, rfl⟩, by simp, by simp, by simp⟩
  read_only _ := rfl

section

variable (h : s.Sound options trace)
include h

section

variable (hquiet : s.client.notices = [])
include hquiet

theorem enqueue (mutation : M) :
    (s.handle options estimate (.enqueue mutation)).Sound options trace := by
  unfold handle
  dsimp only
  by_cases hrefu : s.client.refuses options = true
  · rw [if_pos hrefu, Client.enqueue, if_pos hrefu]
    exact { h with }
  rw [if_neg hrefu, Client.enqueue, if_neg hrefu]
  refine ⟨?_, ?_, ?_, ?_⟩
  · refine (h.holds.pushed mutation (estimate mutation)).of_core_eq ?_
    rw [core_scheduleFlush, core_updateBackpressure]
  · refine (h.ships.enqueued_append [mutation]).of_carrier_eq ?_
    rw [carrier, core_scheduleFlush, core_updateBackpressure]
    rfl
  · apply Client.Tells.scheduleFlush
    apply Client.Tells.updateBackpressure
    exact h.tells.of_quiet hquiet hquiet rfl rfl
  · intro hread
    simp [refuses, hread] at hrefu

theorem flush :
    ({ s with client := { s.client with flushTimer := false }.flushNextBatch options }).Sound
      options trace := by
  have hholds : { s.client with flushTimer := false }.Holds s.enqueued := h.holds.of_core_eq rfl
  have hships : { s.client with flushTimer := false }.Ships s.replies s.store s.enqueued :=
    h.ships.of_core_eq rfl
  have htells : { s.client with flushTimer := false }.Tells trace s.fenceCalls :=
    h.tells.of_quiet hquiet hquiet rfl rfl
  exact ⟨hholds.flushed, hships.flushed hholds.head_le, htells.flushNextBatch hquiet, h.read_only⟩

theorem flushTimer : (s.handle options estimate .flushTimer).Sound options trace := by
  unfold handle
  dsimp only
  unfold fireFlush
  split
  · exact h.flush hquiet
  · exact h

theorem retryTimer : (s.handle options estimate .retryTimer).Sound options trace := by
  refine ⟨?_, h.ships.retried, ?_, h.read_only⟩
  · show (fireRetry s.client).Holds s.enqueued
    unfold fireRetry
    split
    · apply Client.Holds.sent
      exact h.holds.of_contents_eq rfl
    · exact h.holds
  · show (fireRetry s.client).Tells trace s.fenceCalls
    unfold fireRetry
    split
    · apply Client.Tells.sendInFlightBatch
      exact h.tells.of_quiet hquiet hquiet rfl rfl
    · exact h.tells

omit hquiet in
theorem serve (outcome : Outcome) : (s.serve outcome).Sound options trace := by
  unfold System.serve
  split
  · exact h
  rename_i rest hreqs
  have hholds : { s.client with requests := rest }.Holds s.enqueued :=
    h.holds.of_contents_eq rfl
  have htells : { s.client with requests := rest }.Tells trace s.fenceCalls :=
    ⟨h.tells.1, h.tells.2, h.tells.3, h.tells.4⟩
  cases outcome with
  | commits => exact ⟨hholds, h.ships.applied h.holds hreqs true, htells, h.read_only⟩
  | commitsAndFails =>
    exact ⟨hholds, h.ships.applied h.holds hreqs false, htells, h.read_only⟩
  | fails => exact ⟨hholds, h.ships.failed hreqs, htells, h.read_only⟩

theorem reply : (s.reply options).Sound options trace := by
  unfold System.reply
  split
  · exact h
  rename_i batch success _ hreps
  exact ⟨h.holds.handleReply batch success, h.ships.handleReply h.holds hreps,
    h.tells.handleReply hquiet batch success, h.read_only⟩

omit hquiet in
theorem workerFailure : s.workerFailure.Sound options trace := by
  have htells := h.tells.handleWorkerFailure
  exact ⟨h.holds.handleWorkerFailure.of_contents_eq rfl, h.ships.workerFailed,
    { htells with }, h.read_only⟩

omit hquiet in
theorem notify (notice : Notice) (hcaller : notice.pauses? = none)
    (hfence : ∀ call, notice = .fenceResolved call →
      ∃ n, s.fenceCalls[call]? = some n ∧ n ≤ s.client.committedMutationSequence)
    (hdrain : ∀ call, notice = .drainResolved call →
      s.client.queued = [] ∧ s.client.inFlight = none) :
    ({ s with client := s.client.notify [notice] }).Sound options trace := by
  refine ⟨h.holds.of_core_eq rfl, h.ships.of_core_eq rfl, ?_, h.read_only⟩
  apply h.tells.notified
  · simpa using hcaller
  · intro call hcall
    exact hfence call (mem_singleton.mp hcall).symm
  · intro call hcall
    exact hdrain call (mem_singleton.mp hcall).symm

theorem drain : (s.handle options estimate .drain).Sound options trace := by
  have hsame : ∀ {client : Client M}, ({ s with client := client }).Sound options trace →
      ({ s with client := client, drainCalls := s.drainCalls + 1 }).Sound options trace :=
    fun h => { h with }
  apply hsame
  unfold Client.drain
  split
  · exact h.notify _ rfl (by simp) (by simp)
  split
  · rename_i hidle
    simp only [Bool.and_eq_true, Bool.not_eq_true', Option.isSome_eq_false_iff,
      Option.isNone_iff_eq_none, decide_eq_true_eq] at hidle
    exact h.notify _ rfl (by simp) (fun _ _ => ⟨queued_eq_nil hidle.2, hidle.1⟩)
  · obtain ⟨hholds, hships, htells, hread⟩ := h.flush hquiet
    exact ⟨hholds.of_core_eq rfl, hships.of_core_eq rfl, { htells with }, hread⟩

theorem fence : (s.handle options estimate .fence).Sound options trace := by
  -- The waiters of earlier calls keep their entries when a call is added.
  have hcalled : ({ s with fenceCalls := s.fenceCalls ++ [s.enqueued.length] }).Sound options
      trace := by
    refine ⟨h.holds, h.ships, ⟨h.tells.1, ?_, ?_, h.tells.4⟩, h.read_only⟩
    · intro waiter hmem
      have hwtr := h.tells.waiters waiter hmem
      rwa [getElem?_append_left (List.getElem?_eq_some_iff.mp hwtr).1]
    · simp [hquiet]
  have hlast : (s.fenceCalls ++ [s.enqueued.length])[s.fenceCalls.length]? =
      some s.enqueued.length := by
    simp
  show ({ s with
    client := s.client.fence options s.fenceCalls.length
    fenceCalls := s.fenceCalls ++ _ }).Sound options trace
  unfold Client.fence
  split
  · rename_i hread
    refine hcalled.notify _ rfl ?_ (by simp)
    rintro _ ⟨⟩
    refine ⟨_, hlast, ?_⟩
    simp [h.read_only hread]
  split
  · exact hcalled.notify _ rfl (by simp) (by simp)
  split
  · rename_i hcmt
    refine hcalled.notify _ rfl ?_ (by simp)
    rintro _ ⟨⟩
    refine ⟨_, hlast, ?_⟩
    rw [← h.holds.sequence]
    exact hcmt
  · obtain ⟨hholds, hships, htells, hread⟩ := hcalled.flush hquiet
    refine ⟨hholds.of_core_eq rfl, hships.of_core_eq rfl, ⟨htells.1, ?_, htells.3, htells.4⟩, hread⟩
    refine forall_mem_append.mpr ⟨htells.waiters, forall_mem_singleton.mpr ?_⟩
    rw [h.holds.sequence]
    exact hlast

end

end

theorem handle (estimate : M → ℕ) (h : s.Sound options trace) (hquiet : s.client.notices = [])
    (event : Event M) : (s.handle options estimate event).Sound options trace := by
  cases event with
  | enqueue mutation => exact h.enqueue hquiet mutation
  | flushTimer => exact h.flushTimer hquiet
  | retryTimer => exact h.retryTimer hquiet
  | serve outcome => exact h.serve outcome
  | reply => exact h.reply hquiet
  | fence => exact h.fence hquiet
  | drain => exact h.drain hquiet
  | workerFailure => exact h.workerFailure

end System.Sound

/-- What holds after an event: the trace ends in the notices of the event. -/
def System.Settled (options : Options) (s : System M) : Prop :=
  ∃ trace, s.trace = trace ++ s.client.notices ∧ s.Sound options trace

namespace System.Settled

variable {estimate : M → ℕ} {s : System M}

theorem step (h : s.Settled options) (event : Event M) :
    (s.step options estimate event).Settled options := by
  obtain ⟨_, htrace, hsound⟩ := h
  have hquiet : ({ s with client := { s.client with notices := [] } }).Sound options s.trace := by
    obtain ⟨n, halte, hpaus⟩ := hsound.tells.alternates
    refine ⟨hsound.holds.of_core_eq rfl, hsound.ships.of_core_eq rfl, ⟨⟨n, ?_, hpaus⟩,
      hsound.tells.waiters, by simp, by simp⟩, hsound.read_only⟩
    rw [List.append_nil, htrace]
    exact halte
  have hhand := hquiet.handle estimate rfl event
  have hsame : ∀ (t : System M), (t.handle options estimate event).trace = t.trace := by
    intro t
    cases event with
    | serve outcome =>
      simp only [System.handle, serve]
      split
      · rfl
      · cases outcome <;> rfl
    | reply =>
      simp only [System.handle, reply]
      split <;> rfl
    | _ => rfl
  refine ⟨s.trace, ?_, { hhand with }⟩
  show _ ++ _ = _
  rw [hsame]
  rfl

theorem run (options : Options) (estimate : M → ℕ) (events : List (Event M)) :
    (System.run options estimate events).Settled options :=
  foldlRecOn events _ ⟨[], rfl, .start⟩ fun _ h event _ => h.step event

end System.Settled

/-- Over any run of calls, timers, worker replies and failures, the store holds a first part of
what was enqueued, the client holds the rest, and callers and listeners are told the truth. -/
theorem run_delivers (options : Options) (estimate : M → ℕ) (events : List (Event M)) :
    (System.run options estimate events).Delivers := by
  obtain ⟨_, htrace, hsound⟩ := System.Settled.run options estimate events
  generalize System.run options estimate events = s at htrace hsound
  obtain ⟨n, htake, _, _, -⟩ := hsound.ships.stored
  have hstore : s.client.committedMutationSequence ≤ s.store.committed.length := by
    rw [htake, length_take]
    omega
  refine ⟨⟨n, htake⟩, ⟨_, hstore, hsound.holds.mutations⟩, hsound.holds.queue_bytes,
    hsound.holds.in_flight_bytes, ?_, hsound.tells.drains, ?_⟩
  · intro call hcall
    obtain ⟨target, htgt, hcmt⟩ := hsound.tells.fences call hcall
    exact ⟨target, htgt, Nat.le_trans hcmt hstore⟩
  · obtain ⟨k, hk, -⟩ := hsound.tells.alternates
    exact ⟨k, by rw [htrace, hk]⟩

end Bmp.PersistenceClient
