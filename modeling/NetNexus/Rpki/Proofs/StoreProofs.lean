import NetNexus.Rpki.Store
import NetNexus.Table.Proofs.TableProofs

/-!
# What one transaction of the store does

For each transaction: which rows it leaves, and that it counts the serial on by one exactly when
it changed a row.
-/

namespace Rpki

theorem bumpSerial_eq (s : UInt32) : bumpSerial s = s + 1 := by
  unfold bumpSerial
  split
  · rename_i h
    have hle : (0xFFFFFFFF : UInt32).toNat ≤ s.toNat := UInt32.le_iff_toNat_le.mp h
    have hlt := s.toNat_lt
    have heq : s = 0xFFFFFFFF := UInt32.toNat_inj.mp (by
      have : (0xFFFFFFFF : UInt32).toNat = 4294967295 := rfl
      omega)
    subst heq
    rfl
  · rfl

namespace Store

variable {s s' : Store}

/-! ## Single records -/

variable {roas : RoaTable} {value : Except String Roa} {values : List (Except String Roa)}
  {result : BatchChanged × Store}

theorem insertRoa_of_some {roa old : Roa} (h : roas.find? roa.key = some old) :
    insertRoa roas roa = (roas, 0) := by
  unfold insertRoa
  split
  · rfl
  · simp_all

theorem insertRoa_of_none {roa : Roa} (h : roas.find? roa.key = none) :
    insertRoa roas roa = (roas.append roa h, 1) := by
  unfold insertRoa
  split
  · simp_all
  · rfl

theorem addRoa_cases {result : RoaAdded} (h : s.addRoa value = .ok (result, s'))
    (hins : result.inserted ≠ 0) : ∃ hfree : s.roas.find? result.current.key = none,
      s'.roas = s.roas.append result.current hfree ∧ s'.aspas = s.aspas ∧
      s'.cacheSerial = s.cacheSerial + 1 ∧ result.cacheSerial = s.cacheSerial + 1 := by
  cases value with
  | error e => cases h
  | ok roa =>
    cases h
    dsimp only
    have hfree : s.roas.find? roa.key = none := by
      by_contra hsome
      obtain ⟨_, hold⟩ := Option.ne_none_iff_exists'.mp hsome
      exact hins (congrArg Prod.snd (insertRoa_of_some hold))
    refine ⟨hfree, congrArg Prod.fst (insertRoa_of_none hfree), rfl, ?_⟩
    rw [insertRoa_of_none hfree]
    exact ⟨bumpSerial_eq _, bumpSerial_eq _⟩

theorem deleteRoa_cases {result : RoaDeleted} {row : Roa} (h : s.deleteRoa value = .ok (result, s'))
    (hrow : result.previous = some row) :
    s.roas.find? row.key = some row ∧ s'.roas = s.roas.delete row.key ∧ s'.aspas = s.aspas ∧
      s'.cacheSerial = s.cacheSerial + 1 ∧ result.cacheSerial = s.cacheSerial + 1 := by
  unfold deleteRoa at h
  split at h
  · cases h
  · split at h
    · cases h
      cases hrow
    · rename_i hold
      cases h
      cases hrow
      have hkey := Table.key_of_find? hold
      exact ⟨hkey ▸ hold, congrArg s.roas.delete hkey.symm, rfl, bumpSerial_eq _, bumpSerial_eq _⟩

/-- An upsert that changes nothing leaves the store alone; otherwise it inserts the record or
replaces the row it found. -/
theorem upsertAspa_cases {value : Except String Aspa} {result : AspaUpserted}
    (h : s.upsertAspa value = .ok (result, s')) : (result.changed = 0 ∧ s' = s) ∨
      (result.changed ≠ 0 ∧ result.previous = s.aspas.find? result.current.customerAsn ∧
        s'.roas = s.roas ∧ s'.aspas = s.aspas.upsert result.current ∧
        s'.cacheSerial = s.cacheSerial + 1 ∧ result.cacheSerial = s.cacheSerial + 1) := by
  cases value with
  | error e => cases h
  | ok aspa =>
    cases h
    cases hf : s.aspas.find? aspa.customerAsn with
    | none =>
      have hrow : upsertAspaRow s.aspas aspa = (s.aspas.upsert aspa, none, 1, 1) := by
        simp [upsertAspaRow, hf]
      simp [hrow, bumpSerial_eq]
    | some row =>
      by_cases heq : row.providerAsns = aspa.providerAsns ∧ row.afiFlags = aspa.afiFlags
      · have hrow : upsertAspaRow s.aspas aspa = (s.aspas, some row, 0, 0) := by
          simp [upsertAspaRow, hf, heq]
        simp [hrow]
      · have hrow : upsertAspaRow s.aspas aspa = (s.aspas.upsert aspa, some row, 1, 0) := by
          simp [upsertAspaRow, hf, heq]
        simp [hrow, bumpSerial_eq]

theorem deleteAspa_cases {value : Except String UInt32} {result : AspaDeleted} {row : Aspa}
    (h : s.deleteAspa value = .ok (result, s')) (hrow : result.previous = some row) :
    s.aspas.find? row.customerAsn = some row ∧ s'.roas = s.roas ∧
      s'.aspas = s.aspas.delete row.customerAsn ∧
      s'.cacheSerial = s.cacheSerial + 1 ∧ result.cacheSerial = s.cacheSerial + 1 := by
  unfold deleteAspa at h
  split at h
  · cases h
  · split at h
    · cases h
      cases hrow
    · rename_i hold
      cases h
      cases hrow
      have hkey := Table.key_of_find? hold
      exact ⟨hkey ▸ hold, rfl, congrArg s.aspas.delete hkey.symm, bumpSerial_eq _, bumpSerial_eq _⟩

/-! ## Bulk changes -/

/-- What a bulk transaction can do: change rows under the next serial, or nothing at all. -/
inductive BatchOutcome (s : Store) (result : BatchChanged × Store) : Prop where
  | changed (pos : 0 < result.1.changed) (serial : result.1.cacheSerial = s.cacheSerial + 1)
      (store : result.2.cacheSerial = s.cacheSerial + 1)
  | same (zero : result.1.changed = 0) (store : result.2 = s)

theorem insertRoa_of_zero {roa : Roa} (h : (insertRoa roas roa).2 = 0) :
    (insertRoa roas roa).1 = roas := by
  cases hf : roas.find? roa.key with
  | some _ => rw [insertRoa_of_some hf]
  | none =>
    rw [insertRoa_of_none hf] at h
    cases h

/-- The loop counts up, and when the count stands still so does the table. -/
theorem addRoaLoop_count {maxInserted : Option ℕ} {roas roas' : RoaTable} {n n' : ℕ}
    (h : addRoaLoop maxInserted values roas n = .ok (roas', n')) :
    n ≤ n' ∧ (n' = n → roas' = roas) := by
  induction values generalizing roas n with
  | nil =>
    cases h
    exact ⟨le_rfl, fun _ => rfl⟩
  | cons _ _ ih =>
    unfold addRoaLoop at h
    split at h
    · cases h
      exact ⟨le_rfl, fun _ => rfl⟩
    · split at h
      · cases h
      · rename_i roa
        obtain ⟨_, hsame⟩ := ih h
        refine ⟨by omega, fun hn => ?_⟩
        have hzero : (insertRoa roas roa).2 = 0 := by omega
        rw [hsame (by omega), insertRoa_of_zero hzero]

theorem addRoaBatch_outcome {limit : Option ℕ} (h : s.addRoaBatch values limit = .ok result) :
    BatchOutcome s result := by
  unfold addRoaBatch at h
  split at h
  · cases h
  · rename_i inserted hloop
    cases h
    by_cases hpos : 0 < inserted
    · refine .changed hpos ?_ ?_ <;> exact (if_pos hpos).trans (bumpSerial_eq _)
    · obtain rfl : inserted = 0 := by omega
      obtain rfl := (addRoaLoop_count hloop).2 rfl
      exact .same rfl rfl

variable (s : Store)

theorem clearRoas_outcome : BatchOutcome s s.clearRoas := by
  unfold clearRoas
  split
  · rename_i hpos
    exact .changed hpos (bumpSerial_eq _) (bumpSerial_eq _)
  · exact .same rfl rfl

theorem upsertAspaRow_of_zero {aspas : AspaTable} {aspa : Aspa}
    (h : (upsertAspaRow aspas aspa).2.2.1 = 0) :
    (upsertAspaRow aspas aspa).1 = aspas ∧ (upsertAspaRow aspas aspa).2.2.2 = 0 := by
  unfold upsertAspaRow at h ⊢
  split
  · split
    · exact ⟨rfl, rfl⟩
    · simp_all
  · simp_all

theorem upsertAspaLoop_count {values : List (Except String Aspa)} {aspas aspas' : AspaTable}
    {c c' n n' : ℕ} (h : upsertAspaLoop values aspas c n = .ok (aspas', c', n')) :
    c ≤ c' ∧ (c' = c → aspas' = aspas ∧ n' = n) := by
  induction values generalizing aspas c n with
  | nil =>
    cases h
    exact ⟨le_rfl, fun _ => ⟨rfl, rfl⟩⟩
  | cons value _ ih =>
    cases value with
    | error e => cases h
    | ok aspa =>
      obtain ⟨_, hsame⟩ := ih h
      refine ⟨by omega, fun hc => ?_⟩
      have hzero : (upsertAspaRow aspas aspa).2.2.1 = 0 := by omega
      obtain ⟨htable, _⟩ := upsertAspaRow_of_zero hzero
      obtain ⟨haspas, -⟩ := hsame (by omega)
      exact ⟨haspas.trans htable, by omega⟩

theorem upsertAspaBatch_outcome {values : List (Except String Aspa)}
    (h : s.upsertAspaBatch values = .ok result) : BatchOutcome s result := by
  unfold upsertAspaBatch at h
  split at h
  · cases h
  · rename_i changed _ hloop
    cases h
    by_cases hpos : 0 < changed
    · refine .changed hpos ?_ ?_ <;> exact (if_pos hpos).trans (bumpSerial_eq _)
    · obtain rfl : changed = 0 := by omega
      obtain ⟨rfl, rfl⟩ := (upsertAspaLoop_count hloop).2 rfl
      exact .same rfl rfl

theorem clearAspas_outcome : BatchOutcome s s.clearAspas := by
  unfold clearAspas
  split
  · rename_i hpos
    exact .changed hpos (bumpSerial_eq _) (bumpSerial_eq _)
  · exact .same rfl rfl

/-! ## Imports -/

theorem commitRoaImport_outcome (staged : List Roa) (limit : Option ℕ) :
    BatchOutcome s (s.commitRoaImport staged limit) := by
  by_cases hpos : 0 < (s.importedRoas staged limit).length
  · refine .changed hpos ?_ ?_ <;> exact (if_pos hpos).trans (bumpSerial_eq _)
  · have hnil : s.importedRoas staged limit = [] := List.length_eq_zero_iff.mp (by omega)
    refine .same (by simp [commitRoaImport, hnil]) ?_
    simp [commitRoaImport, hnil, Table.appendMany]

theorem commitAspaImport_outcome (staged : List Aspa) :
    BatchOutcome s (s.commitAspaImport staged) := by
  by_cases hpos : 0 < (s.changedAspas staged).length
  · refine .changed hpos ?_ ?_ <;> exact (if_pos hpos).trans (bumpSerial_eq _)
  · have hnil : s.changedAspas staged = [] := List.length_eq_zero_iff.mp (by omega)
    refine .same (by simp [commitAspaImport, hnil]) ?_
    simp [commitAspaImport, hnil, Table.fresh]

end Store

end Rpki
