import NetNexus.Rpki.Proofs.DeltaProofs

/-!
# The bookkeeping of the serial history

Whatever happens to the worker, its history stays, is cleared, or gets an entry under the next
serial. A notice of a change without operations takes a serial that no entry has; the entries
after it are consecutive again.
-/

open scoped UInt32.CommRing

namespace Rpki

open Control List Replay

namespace Worker

variable {estimate : List Operation → ℕ} {w w' : Worker}

/-! ## One change -/

/-- What happens to the history. -/
inductive Kept (w w' : Worker) : Prop where
  | same (serial : w'.cacheSerial = w.cacheSerial) (history : w'.history = w.history)
  | cleared (history : w'.history = .empty)
  | pushed (operations : List Operation) (bytes : ℕ) (serial : w'.cacheSerial = w.cacheSerial + 1)
      (history : w'.history = (w.history.push ⟨w'.cacheSerial, operations, bytes⟩).trim
        maxSerialHistory)

theorem history_resolveMutationSerial (w : Worker) (provided : Option UInt32) :
    (w.resolveMutationSerial provided).2.history = w.history := by
  rcases w.resolveMutationSerial_worker provided with h | h <;> rw [h]
  rfl

theorem kept_record {store : Store} {routerKeys : RouterKeyMap} {operations : List Operation}
    {provided : Option UInt32} {invalidate : Bool} (h : operations ≠ [] ∨ invalidate = true) :
    Kept w ({ w with store, routerKeys }.recordSerialDelta estimate operations provided
      invalidate) := by
  unfold recordSerialDelta
  dsimp only
  split_ifs with hinva hlen
  · exact .cleared rfl
  · refine .pushed operations (estimate operations) ?_ ?_
    · by_contra hne
      exact hinva (by simp [hne])
    · rw [history_resolveMutationSerial]
  · rcases h with h | h
    · exact absurd (length_pos_iff.mpr h) hlen
    · exact absurd (by simp [h]) hinva

theorem kept_recordBulk (result : Store.BatchChanged × Store) :
    Kept w (w.recordBulk estimate result) := by
  unfold recordBulk
  split
  · exact kept_record (.inr rfl)
  · exact .same rfl rfl

theorem kept_handle {request : Request} (h : w.handle estimate request = .ok w') : Kept w w' := by
  cases request with
  | addRoa _ | deleteRoa _ | deleteAspa _ =>
    obtain ⟨_, -, h⟩ := bind_ok.mp h
    dsimp only at h
    split at h
    · cases h
    · cases h
      exact kept_record (.inl (cons_ne_nil _ _))
  | addAspa _ =>
    obtain ⟨_, -, h⟩ := bind_ok.mp h
    dsimp only at h
    split at h
    · cases h
      exact .same rfl rfl
    · cases h
      exact kept_record (.inl (cons_ne_nil _ _))
  | addRouterKey rk =>
    have h : w.addRouterKey estimate rk = .ok w' := h
    unfold addRouterKey at h
    split at h
    · cases h
    · cases h
      exact kept_record (.inl (cons_ne_nil _ _))
  | deleteRouterKey ski asn =>
    have h : w.deleteRouterKey estimate ski asn = .ok w' := h
    unfold deleteRouterKey at h
    split at h
    · cases h
    · cases h
      exact kept_record (.inl (cons_ne_nil _ _))
  | addRoaBatch _ _ | addAspaBatch _ | importJson _ =>
    obtain ⟨_, -, h⟩ := bind_ok.mp h
    cases h
    exact kept_recordBulk _
  | deleteRoaBatch | deleteAspaBatch =>
    cases h
    exact kept_recordBulk _

/-- A notice without operations that does not clear the history -/
def Change.breaks : Change → Bool
  | .datasetChanged [] _ false => true
  | _ => false

theorem kept_change {c : Change} (h : c.breaks = false) : Kept w (w.change estimate c) := by
  cases c with
  | start _ _ => exact .cleared rfl
  | request request =>
    show Kept w (w.step estimate request)
    unfold step
    split
    · rename_i hok
      exact kept_handle hok
    · exact .same rfl rfl
  | shared _ => exact .same rfl rfl
  | datasetChanged operations _ invalidate =>
    refine kept_record ?_
    cases operations with
    | cons _ _ => exact .inl (cons_ne_nil _ _)
    | nil =>
      cases invalidate with
      | true => exact .inr rfl
      | false => cases h

/-! ## Runs -/

/-- Entries that were there before, then consecutive ones up to the current serial. -/
def Runs (earlier : List HistoryEntry) (w : Worker) : Prop :=
  ∃ old new, w.history.entries = old ++ new ∧ old <:+ earlier ∧
    Numbered HistoryEntry.serial new w.cacheSerial

variable {earlier : List HistoryEntry}

theorem Runs.suffix {old new entries : List HistoryEntry} {serial : UInt32}
    (hold : old <:+ earlier) (hnew : Numbered HistoryEntry.serial new serial)
    (h : entries <:+ old ++ new) : ∃ old new, entries = old ++ new ∧ old <:+ earlier ∧
      Numbered HistoryEntry.serial new serial := by
  rcases le_total entries.length new.length with hle | hle
  · have hpart := suffix_of_suffix_length_le h (suffix_append old new) hle
    exact ⟨[], entries, rfl, nil_suffix, hnew.suffix hpart⟩
  · obtain ⟨rest, rfl⟩ := suffix_of_suffix_length_le (suffix_append old new) h hle
    obtain ⟨dropped, hdrop⟩ := h
    rw [← append_assoc] at hdrop
    exact ⟨rest, new, rfl, .trans ⟨dropped, append_cancel_right hdrop⟩ hold, hnew⟩

theorem Runs.kept (h : Runs earlier w) (hkept : Kept w w') : Runs earlier w' := by
  obtain ⟨old, new, hents, hold, hnew⟩ := h
  rcases hkept with ⟨hser, hhist⟩ | hhist | ⟨operations, bytes, hser, hhist⟩
  · exact ⟨old, new, by rw [hhist, hents], hold, hser ▸ hnew⟩
  · exact ⟨[], [], by rw [hhist]; rfl, nil_suffix, .nil _ _⟩
  · have hpush := hnew.push (e := ⟨w'.cacheSerial, operations, bytes⟩) hser
    rw [← hser] at hpush
    refine Runs.suffix hold hpush ?_
    rw [hhist, ← append_assoc, ← hents]
    exact SerialHistory.trim_suffix _

theorem runs_changed {changes : List Change} (h : Runs earlier w)
    (hchgs : ∀ c ∈ changes, c.breaks = false) : Runs earlier (w.changed estimate changes) := by
  induction changes generalizing w with
  | nil => exact h
  | cons c changes ih =>
    obtain ⟨hc, hrest⟩ := forall_mem_cons.mp hchgs
    exact ih (h.kept (kept_change hc)) hrest

/-! ## Deltas -/

theorem serial_of_collect {entries : List HistoryEntry} {serial : UInt32}
    {operations : List Operation} (h : collect serial entries = some operations) {i : ℕ}
    (hi : i < entries.length) : entries[i].serial = serial + (i : UInt32) := by
  induction entries generalizing serial operations i with
  | nil => cases hi
  | cons entry entries ih =>
    unfold collect at h
    split at h
    · cases h
    · rename_i hser
      obtain ⟨_, hrest, -⟩ := Option.map_eq_some_iff.mp h
      cases i with
      | zero => simpa using hser
      | succ i =>
        rw [getElem_cons_succ, ih hrest (Nat.lt_of_succ_lt_succ hi), Nat.cast_succ, add_assoc,
          add_comm 1]

/-- A delta that is served consists of the last entries, which are consecutive. -/
def Serves (w : Worker) : Prop :=
  ∀ requested operations, requested ≠ w.cacheSerial →
    w.getDeltaOperationsSince requested = some operations →
    w.history.entries.getLast?.map HistoryEntry.serial = some w.cacheSerial ∧
      ∃ front back, w.history.entries = front ++ back ∧
        ∀ i (hi : i < back.length), back[i].serial = requested + 1 + (i : UInt32)

theorem serves (w : Worker) : w.Serves := by
  intro requested operations hne h
  unfold getDeltaOperationsSince at h
  dsimp only at h
  rw [if_neg hne] at h
  split at h
  · cases h
  · rename_i first hfirst
    split at h
    · cases h
    · rename_i hlast
      obtain ⟨hlt, -⟩ := findIdx?_eq_some_iff_getElem.mp hfirst
      rw [not_not, getLast?_drop, if_neg (by omega)] at hlast
      exact ⟨hlast, _, _, (take_append_drop first _).symm, fun i hi => serial_of_collect h hi⟩

/-- Whatever happens to the worker, the totals match the history, a delta is served from
consecutive entries that end with the current serial, what is recorded while no notice breaks the
run is consecutive, and under any limits the trimming of the history with a new entry ends: after
at most one round for each entry its condition fails. -/
theorem history_bookkeeping (estimate : List Operation → ℕ) (store : Store)
    (routerKeys : RouterKeyMap) (before during : List Change) :
    let earlier := (start store routerKeys).changed estimate before
    let now := earlier.changed estimate during
    now.history.operationCount = (now.history.entries.map fun e => e.operations.length).sum ∧
      now.history.bytes = (now.history.entries.map HistoryEntry.bytes).sum ∧ now.Serves ∧
      ((∀ c ∈ during, c.breaks = false) → Runs earlier.history.entries now) ∧
      ∀ limits entry, ∃ rounds ≤ (now.history.push entry).entries.length,
        (∀ earlier < rounds,
          (SerialHistory.shift^[earlier] (now.history.push entry)).OverLimit limits) ∧
        ¬ (SerialHistory.shift^[rounds] (now.history.push entry)).OverLimit limits ∧
        (now.history.push entry).trim limits =
          SerialHistory.shift^[rounds] (now.history.push entry) := by
  intro earlier now
  refine ⟨now.history.operationCount_eq, now.history.bytes_eq, now.serves, fun hduring => ?_,
    fun _ _ => SerialHistory.trimLoop_rounds le_rfl⟩
  refine runs_changed ⟨earlier.history.entries, [], ?_, suffix_rfl, .nil _ _⟩ hduring
  rw [append_nil]

end Worker

end Rpki
