import NetNexus.Control.Fallible
import NetNexus.Rpki.Proofs.DatasetProofs
import NetNexus.Rpki.Proofs.StoreProofs

/-!
# What one request of the storage queue does

`step_moved` says once what a request can do to the worker: nothing, or a change under the next
serial that is either recorded as a list of operations with the right effect or clears the
history.
-/

namespace Rpki

open Control List

/-! ## Serials -/

variable (s : UInt32)

theorem isSerialNewer_succ : isSerialNewer (s + 1) s = true := by
  have hd : s + 1 - s = 1 := by grind
  simp [isSerialNewer, hd]

theorem succ_ne_self : s + 1 ≠ s := by
  intro h
  have h1 : 1 = 0 := by grind
  exact absurd h1 (by decide)

/-! ## Trimming -/

namespace SerialHistory

variable {h : SerialHistory}

theorem shift_entries (h : SerialHistory) : h.shift.entries = h.entries.tail := by
  unfold shift
  split
  · rename_i he
    rw [he]
    rfl
  · rename_i he
    exact (congrArg List.tail he).symm

theorem entries_iterate_shift (h : SerialHistory) (rounds : ℕ) :
    (shift^[rounds] h).entries = h.entries.drop rounds := by
  induction rounds with
  | zero => rfl
  | succ rounds ih => rw [Function.iterate_succ_apply', shift_entries, ih, tail_drop]

section Trim

variable {limits : HistoryLimits}

/-- The running totals match the list, so nothing is left to exceed a limit when it is empty. -/
theorem not_overLimit_of_nil (hn : h.entries = []) : ¬ h.OverLimit limits := by
  have hops := h.operationCount_eq
  have hbytes := h.bytes_eq
  simp [OverLimit, hn, hops, hbytes]

/-- The loop stops because its condition fails, not because its fuel is used up. -/
theorem trimLoop_rounds {fuel : ℕ} (hf : h.entries.length ≤ fuel) : ∃ rounds ≤ fuel,
    (∀ earlier < rounds, (shift^[earlier] h).OverLimit limits) ∧
      ¬ (shift^[rounds] h).OverLimit limits ∧ trimLoop limits fuel h = shift^[rounds] h := by
  induction fuel generalizing h with
  | zero =>
    have hnil := length_eq_zero_iff.mp (Nat.le_zero.mp hf)
    exact ⟨0, le_rfl, fun _ hlt => absurd hlt (Nat.not_lt_zero _), not_overLimit_of_nil hnil, rfl⟩
  | succ fuel ih =>
    by_cases hover : h.OverLimit limits
    · obtain ⟨rounds, hle, hall, hno, heq⟩ := @ih h.shift (by
        rw [shift_entries, length_tail]
        omega)
      refine ⟨rounds + 1, Nat.succ_le_succ hle, fun earlier hlt => ?_, hno, ?_⟩
      · cases earlier with
        | zero => exact hover
        | succ earlier => exact hall earlier (Nat.lt_of_succ_lt_succ hlt)
      · rw [trimLoop, if_pos hover, heq]
        rfl
    · exact ⟨0, Nat.zero_le _, fun _ hlt => absurd hlt (Nat.not_lt_zero _), hover, if_neg hover⟩

theorem trim_suffix (h : SerialHistory) : (h.trim limits).entries <:+ h.entries := by
  obtain ⟨rounds, -, -, -, heq⟩ := @trimLoop_rounds h limits _ le_rfl
  rw [trim, heq, entries_iterate_shift]
  exact drop_suffix _ _

theorem trim_length_le (h : SerialHistory) : (h.trim limits).entries.length ≤ limits.entries := by
  obtain ⟨rounds, -, -, hno, heq⟩ := @trimLoop_rounds h limits _ le_rfl
  rw [trim, heq]
  by_contra hlt
  exact hno (.inl (by omega))

end Trim

end SerialHistory

/-! ## One request -/

namespace Worker

variable {estimate : List Operation → ℕ} {w w' : Worker} {operations : List Operation}

/-- What a request can do. -/
inductive Moved (w w' : Worker) : Prop where
  | same (data : w'.tables = w.tables) (serial : w'.cacheSerial = w.cacheSerial)
      (store : w'.store.cacheSerial = w.store.cacheSerial) (history : w'.history = w.history)
  | reset (serial : w'.cacheSerial = w.cacheSerial + 1)
      (store : w'.store.cacheSerial = w'.cacheSerial) (history : w'.history = .empty)
  | delta (operations : List Operation) (bytes : ℕ) (nonempty : operations ≠ [])
      (data : w.tables.applyAll operations = some w'.tables)
      (serial : w'.cacheSerial = w.cacheSerial + 1)
      (store : w'.store.cacheSerial = w'.cacheSerial)
      (history : w'.history = (w.history.push ⟨w'.cacheSerial, operations, bytes⟩).trim
        maxSerialHistory)

theorem resolveMutationSerial_worker (w : Worker) (provided : Option UInt32) :
    (w.resolveMutationSerial provided).2 = w ∨
      (w.resolveMutationSerial provided).2 = w.bumpCacheSerial := by
  by_cases hs : w.newestSerial provided = w.cacheSerial
  · exact .inr (if_pos hs)
  · exact .inl (if_neg hs)

theorem tables_recordSerialDelta (estimate : List Operation → ℕ) (w : Worker)
    (operations : List Operation) (provided : Option UInt32) (invalidate : Bool) :
    (w.recordSerialDelta estimate operations provided invalidate).tables = w.tables := by
  show (w.resolveMutationSerial provided).2.tables = _
  rcases w.resolveMutationSerial_worker provided with h | h <;> rw [h]
  rfl

/-- A change of the store has already been counted there, a change of the router keys has not. -/
def Pending (w : Worker) (provided : Option UInt32) : Prop :=
  (provided = some (w.cacheSerial + 1) ∧ w.store.cacheSerial = w.cacheSerial + 1) ∨
    (provided = none ∧ w.store.cacheSerial = w.cacheSerial)

variable {provided : Option UInt32}

theorem resolveMutationSerial_serial (h : w.Pending provided) :
    (w.resolveMutationSerial provided).1 = ⟨w.cacheSerial + 1, false⟩ ∧
      (w.resolveMutationSerial provided).2.store.cacheSerial = w.cacheSerial + 1 ∧
      (w.resolveMutationSerial provided).2.history = w.history := by
  rcases h with ⟨rfl, hs⟩ | ⟨rfl, hs⟩
  · have hnew : w.newestSerial (some (w.cacheSerial + 1)) = w.cacheSerial + 1 := by
      simp [newestSerial, hs, isSerialNewer_succ]
    simp [resolveMutationSerial, hnew, hs]
  · have hnew : w.newestSerial none = w.cacheSerial := by
      simp [newestSerial, hs]
    simp [resolveMutationSerial, hnew, bumpCacheSerial, Store.bumpCacheSerial, hs, bumpSerial_eq]

theorem recordSerialDelta_serial (hpend : w.Pending provided) (estimate : List Operation → ℕ)
    (operations : List Operation) (invalidate : Bool) :
    (w.recordSerialDelta estimate operations provided invalidate).cacheSerial = w.cacheSerial + 1 ∧
      (w.recordSerialDelta estimate operations provided invalidate).store.cacheSerial =
        w.cacheSerial + 1 := by
  obtain ⟨hres, hstore, -⟩ := resolveMutationSerial_serial hpend
  unfold recordSerialDelta
  dsimp only
  rw [hres, hstore]
  exact ⟨rfl, rfl⟩

theorem record_moved {w₀ : Worker} {invalidate : Bool} (hser : w.cacheSerial = w₀.cacheSerial)
    (hhist : w.history = w₀.history) (hpend : w.Pending provided)
    (hops : invalidate = false → operations ≠ [] ∧ w₀.tables.applyAll operations = some w.tables) :
    Moved w₀ (w.recordSerialDelta estimate operations provided invalidate) := by
  have hdata := tables_recordSerialDelta estimate w operations provided invalidate
  obtain ⟨hres, -, hhist'⟩ := resolveMutationSerial_serial hpend
  obtain ⟨hcache, hsync⟩ := recordSerialDelta_serial hpend estimate operations invalidate
  rw [hser] at hcache hsync
  by_cases hempty :
      (w.recordSerialDelta estimate operations provided invalidate).history = .empty
  · exact .reset hcache (hsync.trans hcache.symm) hempty
  · cases invalidate with
    | true =>
      refine absurd ?_ hempty
      simp [recordSerialDelta]
    | false =>
      obtain ⟨hne, happly⟩ := hops rfl
      refine .delta operations (estimate operations) hne (happly.trans (congrArg some hdata.symm))
        hcache (hsync.trans hcache.symm) ?_
      have hlen : operations.length > 0 := length_pos_iff.mpr hne
      unfold recordSerialDelta at hempty ⊢
      dsimp only at hempty ⊢
      split at hempty
      · exact absurd rfl hempty
      · rename_i hinv
        rw [if_neg hinv, if_pos hlen, hhist', hhist]

/-! ### The handlers -/

section

variable (hsync : w.store.cacheSerial = w.cacheSerial)
include hsync

variable {result : Store.BatchChanged × Store} {roa : Except String Roa}

theorem recordBulk_moved (h : Store.BatchOutcome w.store result) :
    Moved w (w.recordBulk estimate result) := by
  unfold recordBulk
  rcases h with ⟨hpos, hser, hstore⟩ | ⟨_, hstore⟩
  · rw [if_pos hpos]
    rw [hsync] at hser hstore
    refine record_moved rfl rfl (.inl ⟨congrArg some hser, hstore⟩) ?_
    intro hfalse
    cases hfalse
  · rw [if_neg (by omega), hstore]
    exact .same rfl rfl rfl rfl

theorem recordStore_moved {store : Store} {serial : UInt32} {operation : Operation}
    (hser : store.cacheSerial = w.store.cacheSerial + 1)
    (hprov : serial = w.store.cacheSerial + 1)
    (happly : w.tables.apply operation = some ⟨store.roas, store.aspas, w.routerKeys⟩) :
    Moved w ({ w with store }.recordSerialDelta estimate [operation] (some serial) false) := by
  rw [hsync] at hser hprov
  refine record_moved rfl rfl (.inl ⟨congrArg some hprov, hser⟩) fun _ => ?_
  exact ⟨cons_ne_nil _ _, Tables.apply_singleton happly⟩

theorem addRoa_moved (h : w.addRoa estimate roa = .ok w') : Moved w w' := by
  obtain ⟨⟨result, _⟩, hstore, h⟩ := bind_ok.mp h
  dsimp only at h
  by_cases hins : result.inserted = 0
  · rw [if_pos hins] at h
    cases h
  · rw [if_neg hins] at h
    cases h
    obtain ⟨hfree, hroas, haspas, hser, hprov⟩ := Store.addRoa_cases hstore hins
    refine recordStore_moved hsync hser hprov ?_
    rw [hroas, haspas]
    exact dif_pos hfree

theorem deleteRoa_moved (h : w.deleteRoa estimate roa = .ok w') : Moved w w' := by
  obtain ⟨⟨result, _⟩, hstore, h⟩ := bind_ok.mp h
  dsimp only at h
  cases hprev : result.previous with
  | none =>
    rw [hprev] at h
    cases h
  | some _ =>
    rw [hprev] at h
    cases h
    obtain ⟨hfound, hroas, haspas, hser, hprov⟩ := Store.deleteRoa_cases hstore hprev
    refine recordStore_moved hsync hser hprov ?_
    rw [hroas, haspas]
    exact if_pos hfound

theorem addAspa_moved {aspa : Except String Aspa}
    (h : w.addAspa estimate aspa = .ok w') : Moved w w' := by
  obtain ⟨⟨result, _⟩, hstore, h⟩ := bind_ok.mp h
  dsimp only at h
  rcases Store.upsertAspa_cases hstore with
    ⟨hzero, rfl⟩ | ⟨hchan, hprev, hroas, haspas, hser, hprov⟩
  · rw [if_pos hzero] at h
    cases h
    exact .same rfl rfl rfl rfl
  · rw [if_neg hchan] at h
    cases h
    refine recordStore_moved hsync hser hprov ?_
    rw [hroas, haspas]
    cases hf : w.store.aspas.find? result.current.customerAsn with
    | none | _ _ =>
      rw [hprev, hf]
      exact if_pos hf

theorem deleteAspa_moved {customerAsn : Except String UInt32}
    (h : w.deleteAspa estimate customerAsn = .ok w') : Moved w w' := by
  obtain ⟨⟨result, _⟩, hstore, h⟩ := bind_ok.mp h
  dsimp only at h
  cases hprev : result.previous with
  | none =>
    rw [hprev] at h
    cases h
  | some _ =>
    rw [hprev] at h
    cases h
    obtain ⟨hfound, hroas, haspas, hser, hprov⟩ := Store.deleteAspa_cases hstore hprev
    refine recordStore_moved hsync hser hprov ?_
    rw [hroas, haspas]
    exact if_pos hfound

theorem addRouterKey_moved {rk : RouterKey}
    (h : w.addRouterKey estimate rk = .ok w') : Moved w w' := by
  unfold addRouterKey at h
  split at h
  · cases h
  · rename_i hfree
    cases h
    refine record_moved rfl rfl (.inr ⟨rfl, hsync⟩) fun _ => ?_
    exact ⟨cons_ne_nil _ _, Tables.apply_singleton (dif_pos hfree)⟩

theorem deleteRouterKey_moved {ski asn : String}
    (h : w.deleteRouterKey estimate ski asn = .ok w') : Moved w w' := by
  unfold deleteRouterKey at h
  split at h
  · cases h
  · rename_i hfound
    cases h
    refine record_moved rfl rfl (.inr ⟨rfl, hsync⟩) fun _ => ?_
    have hkey := Table.key_of_find? hfound
    rw [← hkey] at hfound ⊢
    exact ⟨cons_ne_nil _ _, Tables.apply_singleton (if_pos hfound)⟩

omit hsync in
theorem commit_outcome {store : Store} {task : ImportTask} (h : task.commit store = .ok result) :
    Store.BatchOutcome store result := by
  rcases task with ⟨_ | _, _⟩ | ⟨_ | _, _⟩
  · cases h
  · cases h
    exact store.commitRoaImport_outcome ..
  · cases h
  · cases h
    exact store.commitAspaImport_outcome _

theorem handle_moved {request : Request} (h : w.handle estimate request = .ok w') : Moved w w' := by
  cases request with
  | addRoa _ => exact addRoa_moved hsync h
  | deleteRoa _ => exact deleteRoa_moved hsync h
  | addRouterKey _ => exact addRouterKey_moved hsync h
  | deleteRouterKey _ _ => exact deleteRouterKey_moved hsync h
  | addAspa _ => exact addAspa_moved hsync h
  | deleteAspa _ => exact deleteAspa_moved hsync h
  | addRoaBatch _ _ =>
    obtain ⟨_, hstore, h⟩ := bind_ok.mp h
    cases h
    exact recordBulk_moved hsync (Store.addRoaBatch_outcome hstore)
  | addAspaBatch _ =>
    obtain ⟨_, hstore, h⟩ := bind_ok.mp h
    cases h
    exact recordBulk_moved hsync (Store.upsertAspaBatch_outcome _ hstore)
  | deleteRoaBatch =>
    cases h
    exact recordBulk_moved hsync w.store.clearRoas_outcome
  | deleteAspaBatch =>
    cases h
    exact recordBulk_moved hsync w.store.clearAspas_outcome
  | importJson _ =>
    obtain ⟨_, hcmt, h⟩ := bind_ok.mp h
    cases h
    exact recordBulk_moved hsync (commit_outcome hcmt)

end

theorem step_moved (estimate : List Operation → ℕ) (request : Request)
    (hsync : w.store.cacheSerial = w.cacheSerial) : Moved w (w.step estimate request) := by
  unfold step
  split
  · rename_i hok
    exact handle_moved hsync hok
  · exact .same rfl rfl rfl rfl

end Worker

end Rpki
