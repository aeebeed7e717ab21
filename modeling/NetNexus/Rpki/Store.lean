import NetNexus.Table.Table

/-!
# The RPKI store

The ROAs, the ASPAs and the cache serial that `RpkiSqliteStore` keeps in its database. A table is
the list of its rows in the order of their ids; the counters that the database keeps beside the
tables are part of the state. Every operation is one transaction: it returns the new contents or
the error that rolls it back. Payloads are given by what `normalizeRoaInput`, `normalizeAspaInput`
or `normalizeCustomerAsn` makes of them: a record, or the error raised.
-/

namespace Rpki

/-- `IP_TYPE` -/
inductive IpType where
  | ipv4
  | ipv6
  deriving DecidableEq, Repr

/-- A ROA of the store. -/
structure Roa where
  ipType : IpType
  ip : String
  mask : ℕ
  asn : UInt32
  maxLength : ℕ
  deriving DecidableEq, Repr

/-- The columns of the unique constraint on `rpki_roas`. -/
def Roa.key (roa : Roa) : String × ℕ × UInt32 × ℕ := (roa.ip, roa.mask, roa.asn, roa.maxLength)

/-- The values of `afi_flags`: 1, 2 and 3. -/
inductive AfiFlags where
  | ipv4
  | ipv6
  | both
  deriving DecidableEq, Repr

/-- An ASPA of the store. -/
structure Aspa where
  customerAsn : UInt32
  providerAsns : List UInt32
  afiFlags : AfiFlags
  deriving DecidableEq, Repr

abbrev RoaTable := Table Roa.key

abbrev AspaTable := Table Aspa.customerAsn

theorem Roa.length_empty : 0 = (.empty : RoaTable).rows.length := Table.length_empty

/-- The store with its counters, which match the tables. -/
structure Store where
  roas : RoaTable
  aspas : AspaTable
  roaCount : ℕ
  aspaCount : ℕ
  cacheSerial : UInt32
  roaCount_eq : roaCount = roas.rows.length
  aspaCount_eq : aspaCount = aspas.rows.length

/-- `bumpCacheSerialInTransaction`. -/
def bumpSerial (current : UInt32) : UInt32 := if current ≥ 0xFFFFFFFF then 0 else current + 1

namespace Store

variable (s : Store)

def bumpCacheSerial : Store := { s with cacheSerial := bumpSerial s.cacheSerial }

/-! ## ROAs -/

/-- `INSERT OR IGNORE` of one ROA and the number of rows it changed. -/
def insertRoa (roas : RoaTable) (roa : Roa) : RoaTable × ℕ :=
  match h : roas.find? roa.key with
  | some _ => (roas, 0)
  | none => (roas.append roa h, 1)

theorem length_insertRoa (roas : RoaTable) (roa : Roa) :
    (insertRoa roas roa).1.rows.length = roas.rows.length + (insertRoa roas roa).2 := by
  unfold insertRoa
  split
  · rfl
  · simp [Table.append]

/-- The result of `addRoa` -/
structure RoaAdded where
  inserted : ℕ
  current : Roa
  cacheSerial : UInt32

def addRoa (value : Except String Roa) : Except String (RoaAdded × Store) := do
  let roa ← value
  let result := insertRoa s.roas roa
  let cacheSerial := if result.2 > 0 then bumpSerial s.cacheSerial else s.cacheSerial
  return ({ inserted := result.2, current := roa, cacheSerial },
    { s with
      roas := result.1
      roaCount := s.roaCount + result.2
      cacheSerial
      roaCount_eq := by rw [length_insertRoa, s.roaCount_eq] })

/-- The loop of `addRoaBatchInTransaction`, which stops before the next value once `maxInserted`
rows are in. -/
def addRoaLoop (maxInserted : Option ℕ) :
    List (Except String Roa) → RoaTable → ℕ → Except String (RoaTable × ℕ)
  | [], roas, inserted => .ok (roas, inserted)
  | value :: values, roas, inserted =>
    if maxInserted.any (· ≤ inserted) then .ok (roas, inserted)
    else match value with
      | .error e => .error e
      | .ok roa =>
        addRoaLoop maxInserted values (insertRoa roas roa).1 (inserted + (insertRoa roas roa).2)

theorem length_addRoaLoop {maxInserted : Option ℕ} {values : List (Except String Roa)}
    {roas roas' : RoaTable} {n n' : ℕ}
    (h : addRoaLoop maxInserted values roas n = .ok (roas', n')) :
    roas'.rows.length + n = roas.rows.length + n' := by
  induction values generalizing roas n with
  | nil =>
    cases h
    rfl
  | cons _ _ ih =>
    unfold addRoaLoop at h
    split at h
    · cases h
      rfl
    · split at h
      · cases h
      · have hrec := ih h
        rw [length_insertRoa] at hrec
        omega

/-- The result of a bulk change. -/
structure BatchChanged where
  changed : ℕ
  cacheSerial : UInt32

def addRoaBatch (values : List (Except String Roa)) (maxInserted : Option ℕ) :
    Except String (BatchChanged × Store) :=
  match h : addRoaLoop maxInserted values s.roas 0 with
  | .error e => .error e
  | .ok (roas, inserted) =>
    let cacheSerial := if inserted > 0 then bumpSerial s.cacheSerial else s.cacheSerial
    .ok ({ changed := inserted, cacheSerial },
      { s with
        roas
        roaCount := s.roaCount + inserted
        cacheSerial
        roaCount_eq := by
          have hlen := length_addRoaLoop h
          rw [s.roaCount_eq]
          omega })

/-- The result of `deleteRoa` -/
structure RoaDeleted where
  previous : Option Roa
  cacheSerial : UInt32

def deleteRoa (value : Except String Roa) : Except String (RoaDeleted × Store) :=
  match value with
  | .error e => .error e
  | .ok roa =>
    match h : s.roas.find? roa.key with
    | none => .ok ({ previous := none, cacheSerial := s.cacheSerial }, s)
    | some row =>
      let cacheSerial := bumpSerial s.cacheSerial
      .ok ({ previous := some row, cacheSerial },
        { s with
          roas := s.roas.delete roa.key
          roaCount := s.roaCount - 1
          cacheSerial
          roaCount_eq := by
            have hlen := Table.length_delete h
            rw [s.roaCount_eq]
            omega })

def clearRoas : BatchChanged × Store :=
  if s.roaCount > 0 then
    ({ changed := s.roaCount, cacheSerial := bumpSerial s.cacheSerial },
      { s with
        roas := .empty
        roaCount := 0
        cacheSerial := bumpSerial s.cacheSerial
        roaCount_eq := Table.length_empty })
  else
    ({ changed := 0, cacheSerial := s.cacheSerial }, s)

/-! ## ASPAs -/

/-- The result of `upsertAspa` -/
structure AspaUpserted where
  previous : Option Aspa
  current : Aspa
  changed : ℕ
  cacheSerial : UInt32

/-- The row changes of `upsertAspaInTransaction`: the table, the old row and how many rows were
changed and inserted. A row that is already as required is left alone. -/
def upsertAspaRow (aspas : AspaTable) (aspa : Aspa) : AspaTable × Option Aspa × ℕ × ℕ :=
  match aspas.find? aspa.customerAsn with
  | some row =>
    if row.providerAsns = aspa.providerAsns ∧ row.afiFlags = aspa.afiFlags then
      (aspas, some row, 0, 0)
    else (aspas.upsert aspa, some row, 1, 0)
  | none => (aspas.upsert aspa, none, 1, 1)

theorem length_upsertAspaRow (aspas : AspaTable) (aspa : Aspa) :
    (upsertAspaRow aspas aspa).1.rows.length =
      aspas.rows.length + (upsertAspaRow aspas aspa).2.2.2 := by
  unfold upsertAspaRow
  split
  · rename_i hrow
    split
    · rfl
    · exact Table.length_upsert_of_some hrow
  · rename_i hnone
    exact Table.length_upsert_of_none hnone

def upsertAspa (value : Except String Aspa) : Except String (AspaUpserted × Store) := do
  let aspa ← value
  let result := upsertAspaRow s.aspas aspa
  let cacheSerial := if result.2.2.1 = 0 then s.cacheSerial else bumpSerial s.cacheSerial
  return ({ previous := result.2.1, current := aspa, changed := result.2.2.1, cacheSerial },
    { s with
      aspas := result.1
      aspaCount := s.aspaCount + result.2.2.2
      cacheSerial
      aspaCount_eq := by rw [length_upsertAspaRow, s.aspaCount_eq] })

/-- The loop of `upsertAspaBatchInTransaction` with the numbers of changed and inserted rows. -/
def upsertAspaLoop :
    List (Except String Aspa) → AspaTable → ℕ → ℕ → Except String (AspaTable × ℕ × ℕ)
  | [], aspas, changed, inserted => .ok (aspas, changed, inserted)
  | .error e :: _, _, _, _ => .error e
  | .ok aspa :: values, aspas, changed, inserted =>
    upsertAspaLoop values (upsertAspaRow aspas aspa).1
      (changed + (upsertAspaRow aspas aspa).2.2.1) (inserted + (upsertAspaRow aspas aspa).2.2.2)

theorem length_upsertAspaLoop {values : List (Except String Aspa)} {aspas aspas' : AspaTable}
    {c c' n n' : ℕ} (h : upsertAspaLoop values aspas c n = .ok (aspas', c', n')) :
    aspas'.rows.length + n = aspas.rows.length + n' := by
  induction values generalizing aspas c n with
  | nil =>
    cases h
    rfl
  | cons value _ ih =>
    cases value with
    | error e => cases h
    | ok _ =>
      have hrec := ih h
      rw [length_upsertAspaRow] at hrec
      omega

def upsertAspaBatch (values : List (Except String Aspa)) : Except String (BatchChanged × Store) :=
  match h : upsertAspaLoop values s.aspas 0 0 with
  | .error e => .error e
  | .ok (aspas, changed, inserted) =>
    let cacheSerial := if changed > 0 then bumpSerial s.cacheSerial else s.cacheSerial
    .ok ({ changed, cacheSerial },
      { s with
        aspas
        aspaCount := s.aspaCount + inserted
        cacheSerial
        aspaCount_eq := by
          have hlen := length_upsertAspaLoop h
          rw [s.aspaCount_eq]
          omega })

/-- The result of `deleteAspa` -/
structure AspaDeleted where
  previous : Option Aspa
  cacheSerial : UInt32

def deleteAspa (value : Except String UInt32) : Except String (AspaDeleted × Store) :=
  match value with
  | .error e => .error e
  | .ok customerAsn =>
    match h : s.aspas.find? customerAsn with
    | none => .ok ({ previous := none, cacheSerial := s.cacheSerial }, s)
    | some row =>
      let cacheSerial := bumpSerial s.cacheSerial
      .ok ({ previous := some row, cacheSerial },
        { s with
          aspas := s.aspas.delete customerAsn
          aspaCount := s.aspaCount - 1
          cacheSerial
          aspaCount_eq := by
            have hlen := Table.length_delete h
            rw [s.aspaCount_eq]
            omega })

def clearAspas : BatchChanged × Store :=
  if s.aspaCount > 0 then
    ({ changed := s.aspaCount, cacheSerial := bumpSerial s.cacheSerial },
      { s with
        aspas := .empty
        aspaCount := 0
        cacheSerial := bumpSerial s.cacheSerial
        aspaCount_eq := Table.length_empty })
  else
    ({ changed := 0, cacheSerial := s.cacheSerial }, s)

/-! ## Imports

The staging tables of an import are temporary and private to the connection of the import worker;
only the commit touches the store. -/

/-- The candidates of `commitRoaStage` up to the limit. -/
def importedRoas (staged : List Roa) (maxInserted : Option ℕ) : List Roa :=
  let stage : RoaTable := staged.foldl Table.insert .empty
  let candidates := s.roas.fresh stage.rows
  match maxInserted with
  | none => candidates
  | some n => candidates.take n

theorem importedRoas_sublist (staged : List Roa) (maxInserted : Option ℕ) :
    ∃ stage : RoaTable, (s.importedRoas staged maxInserted).Sublist (s.roas.fresh stage.rows) := by
  refine ⟨staged.foldl Table.insert .empty, ?_⟩
  cases maxInserted with
  | none => exact .refl _
  | some n => exact List.take_sublist ..

def commitRoaImport (staged : List Roa) (maxInserted : Option ℕ) : BatchChanged × Store :=
  let rows := s.importedRoas staged maxInserted
  let cacheSerial := if rows.length > 0 then bumpSerial s.cacheSerial else s.cacheSerial
  ({ changed := rows.length, cacheSerial },
    { s with
      roas := s.roas.appendMany rows
        (by
          obtain ⟨stage, hsub⟩ := s.importedRoas_sublist staged maxInserted
          exact stage.unique.sublist ((hsub.trans List.filter_sublist).map _))
        (by
          obtain ⟨stage, hsub⟩ := s.importedRoas_sublist staged maxInserted
          intro r hr
          simpa using (List.mem_filter.mp (hsub.subset hr)).2)
      roaCount := s.roaCount + rows.length
      cacheSerial
      roaCount_eq := by simp [Table.appendMany, s.roaCount_eq] })

/-- The staged ASPAs that are new or differ from the stored ones. -/
def changedAspas (staged : List Aspa) : List Aspa :=
  let stage : AspaTable := staged.foldl Table.upsert .empty
  stage.rows.filter fun aspa => s.aspas.find? aspa.customerAsn ≠ some aspa

theorem nodup_changedAspas (staged : List Aspa) :
    ((s.changedAspas staged).map Aspa.customerAsn).Nodup := by
  let stage : AspaTable := staged.foldl Table.upsert .empty
  exact stage.unique.sublist (List.filter_sublist.map _)

def commitAspaImport (staged : List Aspa) : BatchChanged × Store :=
  let rows := s.changedAspas staged
  let cacheSerial := if rows.length > 0 then bumpSerial s.cacheSerial else s.cacheSerial
  ({ changed := rows.length, cacheSerial },
    { s with
      aspas := rows.foldl Table.upsert s.aspas
      aspaCount := s.aspaCount + (s.aspas.fresh rows).length
      cacheSerial
      aspaCount_eq := by
        rw [Table.length_foldl_upsert (s.nodup_changedAspas staged), s.aspaCount_eq] })

end Store

end Rpki
