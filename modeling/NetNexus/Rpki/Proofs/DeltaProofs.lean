import NetNexus.Replay.Log
import NetNexus.Rpki.Proofs.WorkerProofs
import Mathlib.Data.UInt

/-!
# Deltas bring earlier datasets up to date

Over every run of the storage queue the history is a log of the last changes with consecutive
serials, so what `getDeltaOperationsSince` returns for an earlier serial leads from the dataset of
that time to the present one.
-/

open scoped UInt32.CommRing

namespace Rpki

open List Replay

namespace Tables

/-- The effect of a history entry; `none` stands for tables on which it makes no sense. -/
def applyEntry (t : Option Tables) (entry : HistoryEntry) : Option Tables :=
  t.bind fun t => t.applyAll entry.operations

theorem foldl_applyEntry (t : Tables) (entries : List HistoryEntry) :
    entries.foldl applyEntry (some t) = t.applyAll (entries.flatMap HistoryEntry.operations) := by
  -- from the right: the last entry is applied to what the others give
  induction entries using List.reverseRecOn with
  | nil => rfl
  | append_singleton _ _ ih =>
    rw [foldl_append, ih, flatMap_append, flatMap_singleton, Tables.applyAll, Tables.applyAll,
      foldlM_append]
    rfl

end Tables

namespace Worker

variable {estimate : List Operation → ℕ} {w w' : Worker} {past : Tables} {n : ℕ}

/-- Between two requests the store and the worker agree on the serial, and the history ends at
it. -/
structure Inv (w : Worker) : Prop where
  sync : w.store.cacheSerial = w.cacheSerial
  numbered : Numbered HistoryEntry.serial w.history.entries w.cacheSerial
  length_le : w.history.entries.length ≤ maxSerialHistoryEntries

theorem inv_start (store : Store) (routerKeys : RouterKeyMap) : (start store routerKeys).Inv :=
  ⟨rfl, .nil _ _, Nat.zero_le _⟩

theorem Moved.inv (h : Moved w w') (hinv : w.Inv) : w'.Inv := by
  obtain ⟨hsync, hnum, hlen⟩ := hinv
  rcases h with ⟨-, hser, hstore, hhist⟩ | ⟨-, hstore, hhist⟩ |
    ⟨operations, bytes, -, -, hser, hstore, hhist⟩
  · refine ⟨by rw [hstore, hser, hsync], ?_, by rw [hhist]; exact hlen⟩
    rw [hhist, hser]
    exact hnum
  · refine ⟨hstore, ?_, ?_⟩ <;> rw [hhist]
    · exact .nil _ _
    · exact Nat.zero_le _
  · refine ⟨hstore, ?_, by rw [hhist]; exact SerialHistory.trim_length_le _⟩
    have hpush := hnum.push (e := ⟨w'.cacheSerial, operations, bytes⟩) hser
    rw [hhist, hser] at *
    exact hpush.suffix (SerialHistory.trim_suffix _)

/-- After a request either nothing has changed, or the serial is one higher and a log that recalled
an earlier dataset still does so. -/
theorem Moved.recalls (h : Moved w w') :
    (w'.cacheSerial = w.cacheSerial ∧ w'.tables = w.tables ∧ w'.history = w.history) ∨
      (w'.cacheSerial = w.cacheSerial + 1 ∧
        w'.history.entries.length ≤ w.history.entries.length + 1 ∧
        ∀ past n, Recalls Tables.applyEntry past n w.history.entries (some w.tables) →
          Recalls Tables.applyEntry past (n + 1) w'.history.entries (some w'.tables)) := by
  rcases h with ⟨hdata, hser, -, hhist⟩ | ⟨hser, -, hhist⟩ |
    ⟨operations, bytes, -, hdata, hser, -, hhist⟩
  · exact .inl ⟨hser, hdata, hhist⟩
  · right
    rw [hhist]
    exact ⟨hser, Nat.zero_le _, fun _ _ _ => .clear _ _ _ _⟩
  · right
    have hsuffix := @SerialHistory.trim_suffix maxSerialHistory
      (w.history.push ⟨w'.cacheSerial, operations, bytes⟩)
    rw [hhist]
    refine ⟨hser, ?_, fun past n hr => ?_⟩
    · have hlen := hsuffix.length_le
      rwa [SerialHistory.push, length_append] at hlen
    · have hentry : Tables.applyEntry (some w.tables) ⟨w'.cacheSerial, operations, bytes⟩ =
          some w'.tables := hdata
      exact (hr.push hentry).suffix hsuffix

/-! ## Runs -/

variable (requests : List Request)

theorem run_inv (hinv : w.Inv) : (w.run estimate requests).Inv := by
  induction requests generalizing w with
  | nil => exact hinv
  | cons request _ ih => exact ih ((step_moved estimate request hinv.sync).inv hinv)

theorem run_recalls (hinv : w.Inv)
    (hr : Recalls Tables.applyEntry (some past) n w.history.entries (some w.tables)) :
    (w.run estimate requests).cacheSerial = w.cacheSerial + (w.changes estimate requests : UInt32) ∧
      Recalls Tables.applyEntry (some past) (n + w.changes estimate requests)
        (w.run estimate requests).history.entries (some (w.run estimate requests).tables) := by
  induction requests generalizing w n with
  | nil =>
    refine ⟨?_, hr⟩
    rw [changes, Nat.cast_zero, add_zero]
    rfl
  | cons request requests ih =>
    have hmoved := step_moved estimate request hinv.sync
    have hinv' := hmoved.inv hinv
    rcases hmoved.recalls with ⟨hser, hdata, hhist⟩ | ⟨hser, -, hnext⟩
    · have hchgs : w.changes estimate (request :: requests) =
          (w.step estimate request).changes estimate requests := by
        rw [changes, if_pos hser, Nat.zero_add]
      rw [← hhist, ← hdata] at hr
      obtain ⟨hrun, hreca⟩ := ih hinv' hr
      rw [hchgs, ← hser]
      exact ⟨hrun, hreca⟩
    · have hne : (w.step estimate request).cacheSerial ≠ w.cacheSerial := by
        rw [hser]
        exact succ_ne_self _
      have hchgs : w.changes estimate (request :: requests) =
          1 + (w.step estimate request).changes estimate requests := by
        rw [changes, if_neg hne]
      obtain ⟨hrun, hreca⟩ := ih hinv' (hnext _ n hr)
      rw [hchgs, Nat.cast_add, Nat.cast_one, ← add_assoc, ← add_assoc, ← hser]
      exact ⟨hrun, hreca⟩

/-! ## The delta -/

variable {operations : List Operation}

theorem collect_eq_some {serial : UInt32} {entries : List HistoryEntry}
    (h : collect serial entries = some operations) :
    operations = entries.flatMap HistoryEntry.operations := by
  induction entries generalizing serial operations with
  | nil =>
    cases h
    rfl
  | cons _ _ ih =>
    unfold collect at h
    split at h
    · cases h
    · obtain ⟨_, hrest, rfl⟩ := Option.map_eq_some_iff.mp h
      rw [ih hrest, flatMap_cons]

theorem getDeltaOperationsSince_eq_some {requested : UInt32}
    (hnum : Numbered HistoryEntry.serial w.history.entries w.cacheSerial)
    (h : w.getDeltaOperationsSince requested = some operations) :
    ∃ front back, w.history.entries = front ++ back ∧
      requested + (back.length : UInt32) = w.cacheSerial ∧
      operations = back.flatMap HistoryEntry.operations := by
  unfold getDeltaOperationsSince at h
  dsimp only at h
  by_cases hcur : requested = w.cacheSerial
  · rw [if_pos hcur] at h
    cases h
    refine ⟨w.history.entries, [], (append_nil _).symm, ?_, rfl⟩
    rw [length_nil, Nat.cast_zero, add_zero, hcur]
  · rw [if_neg hcur] at h
    split at h
    · cases h
    · rename_i i hidx
      split at h
      · cases h
      · obtain ⟨hlt, hser, -⟩ := findIdx?_eq_some_iff_getElem.mp hidx
        have hback : w.history.entries.drop i =
            w.history.entries[i] :: w.history.entries.drop (i + 1) := drop_eq_getElem_cons hlt
        have hsplit : w.history.entries =
            w.history.entries.take i ++ w.history.entries[i] :: w.history.entries.drop (i + 1) := by
          rw [← hback, take_append_drop]
        refine ⟨_, _, (take_append_drop i _).symm, ?_, collect_eq_some h⟩
        have hlast := hnum _ _ _ hsplit
        rw [decide_eq_true_eq] at hser
        rw [hser] at hlast
        rw [hback, length_cons, Nat.cast_succ, ← hlast, add_assoc, add_comm 1]

/-- Two counts below `2 ^ 32` that lead from one serial to the same serial are equal. -/
theorem count_eq_of_serial_eq {serial : UInt32} {a b : ℕ} (ha : a < 2 ^ 32) (hb : b < 2 ^ 32)
    (h : serial + (a : UInt32) = serial + (b : UInt32)) : a = b := by
  have hcast : (a : UInt32) = b := add_left_cancel h
  have hnat : (UInt32.ofNat a).toNat = (UInt32.ofNat b).toNat := congrArg UInt32.toNat hcast
  rw [UInt32.toNat_ofNat', UInt32.toNat_ofNat'] at hnat
  omega

theorem getDeltaOperationsSince_tables {earlier : Worker} {requests : List Request}
    (hinv : earlier.Inv) (hchgs : earlier.changes estimate requests ≤ 2 ^ 31)
    (hdelta : (earlier.run estimate requests).getDeltaOperationsSince earlier.cacheSerial =
      some operations) :
    earlier.tables.applyAll operations = some (earlier.run estimate requests).tables := by
  obtain ⟨hser, hreca⟩ := @run_recalls estimate _ _ _ requests hinv
    (.zero Tables.applyEntry _ earlier.history.entries)
  have hnow : (earlier.run estimate requests).Inv := run_inv requests hinv
  obtain ⟨_, back, hents, hback, rfl⟩ :=
    getDeltaOperationsSince_eq_some hnow.numbered hdelta
  have hlen : back.length ≤ maxSerialHistoryEntries := by
    have hle := hnow.length_le
    rw [hents, length_append] at hle
    omega
  have hcount : back.length = earlier.changes estimate requests := by
    refine count_eq_of_serial_eq ?_ (by omega) (hback.trans hser)
    exact Nat.lt_of_le_of_lt hlen (by decide)
  rw [Nat.zero_add, ← hcount, hents] at hreca
  rw [← Tables.foldl_applyEntry]
  exact hreca.replay

/-- Applying a delta to the dataset of an earlier serial gives the present dataset, and between
different datasets no delta is empty. -/
theorem getDeltaOperationsSince_correct (estimate : List Operation → ℕ) (store : Store)
    (routerKeys : RouterKeyMap) (before after : List Request) (operations : List Operation)
    (hchanges : ((start store routerKeys).run estimate before).changes estimate after ≤ 2 ^ 31)
    (hdelta : (((start store routerKeys).run estimate before).run estimate
      after).getDeltaOperationsSince ((start store routerKeys).run estimate before).cacheSerial =
        some operations) :
    let earlier := (start store routerKeys).run estimate before
    let now := earlier.run estimate after
    earlier.dataset.applyAll operations = now.dataset ∧
      (earlier.dataset ≠ now.dataset → operations ≠ []) := by
  intro earlier now
  have hinv : earlier.Inv := run_inv before (inv_start store routerKeys)
  have happly : earlier.dataset.applyAll operations = now.dataset :=
    Tables.dataset_applyAll (getDeltaOperationsSince_tables hinv hchanges hdelta)
  refine ⟨happly, fun hne hnil => hne ?_⟩
  rw [← happly, hnil]
  rfl

/-- A ROA is added under the serial that wraps to 0; the delta since then announces a router key
and withdraws the ROA. -/
theorem getDeltaOperationsSince_correct_wrapped :
    let roa : Roa := ⟨.ipv4, "192.0.2.0", 24, 64496, 24⟩
    let rk : RouterKey := ⟨"00", "64496", "01"⟩
    let earlier := (start ⟨.empty, .empty, 0, 0, 0xFFFFFFFF, rfl, rfl⟩ .empty).run List.length
      [.addRoa (.ok roa)]
    let now := earlier.run List.length [.addRouterKey rk, .deleteRoa (.ok roa)]
    earlier.cacheSerial = 0 ∧
      earlier.dataset.applyAll [.routerKey .announce rk, .roa .withdraw roa] = now.dataset := by
  intro roa rk earlier now
  refine ⟨by decide, ?_⟩
  exact (getDeltaOperationsSince_correct List.length ⟨.empty, .empty, 0, 0, 0xFFFFFFFF, rfl, rfl⟩
    .empty [.addRoa _] [.addRouterKey rk, .deleteRoa _]
    [.routerKey .announce rk, .roa .withdraw roa] (by decide) (by decide)).1

end Worker

end Rpki
