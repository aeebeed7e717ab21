import NetNexus.Rpki.Dataset
import NetNexus.Table.Proofs.TableProofs

/-!
# Recorded operations and their effect

A change of the tables that is recorded as an operation has the effect of that operation on the
dataset.
-/

namespace Rpki

variable {t t' : Tables} {operation : Operation} {operations : List Operation}

namespace Tables

/-! ## The change behind each operation -/

theorem apply_singleton (h : t.apply operation = some t') : t.applyAll [operation] = some t' := by
  rw [applyAll, List.foldlM_cons, h]
  rfl

/-- What an operation requires of the tables and what it makes of them. -/
inductive Applies (t : Tables) : Operation → Tables → Prop where
  | addRoa {roa : Roa} (free : t.roas.find? roa.key = none) :
      Applies t (.roa .announce roa) { t with roas := t.roas.append roa free }
  | deleteRoa {roa : Roa} (found : t.roas.find? roa.key = some roa) :
      Applies t (.roa .withdraw roa) { t with roas := t.roas.delete roa.key }
  | addRouterKey {rk : RouterKey} (free : t.routerKeys.find? rk.key = none) :
      Applies t (.routerKey .announce rk) { t with routerKeys := t.routerKeys.append rk free }
  | deleteRouterKey {rk : RouterKey} (found : t.routerKeys.find? rk.key = some rk) :
      Applies t (.routerKey .withdraw rk) { t with routerKeys := t.routerKeys.delete rk.key }
  | addAspa {aspa : Aspa} (free : t.aspas.find? aspa.customerAsn = none) :
      Applies t (.aspa .announce aspa) { t with aspas := t.aspas.upsert aspa }
  | deleteAspa {aspa : Aspa} (found : t.aspas.find? aspa.customerAsn = some aspa) :
      Applies t (.aspa .withdraw aspa) { t with aspas := t.aspas.delete aspa.customerAsn }
  | replaceAspa {oldData newData : Aspa}
      (found : t.aspas.find? newData.customerAsn = some oldData) :
      Applies t (.aspaReplace oldData newData) { t with aspas := t.aspas.upsert newData }

theorem applies_of_apply (h : t.apply operation = some t') : Applies t operation t' := by
  rcases operation with ⟨_ | _, _⟩ | ⟨_ | _, _⟩ | ⟨_ | _, _⟩ | ⟨_, _⟩
  all_goals
    dsimp only [apply] at h
    split at h
    all_goals cases h
  · exact .addRoa ‹_›
  · exact .deleteRoa ‹_›
  · exact .addRouterKey ‹_›
  · exact .deleteRouterKey ‹_›
  · exact .addAspa ‹_›
  · exact .deleteAspa ‹_›
  · exact .replaceAspa ‹_›

/-! ## The effect on the dataset -/

theorem Applies.dataset (h : Applies t operation t') : t.dataset.apply operation = t'.dataset := by
  cases h with
  | addRoa _ =>
    refine Dataset.ext ?_ rfl rfl
    ext x
    simp [Dataset.apply, Tables.dataset]
  | deleteRoa found =>
    refine Dataset.ext ?_ rfl rfl
    ext x
    simp [Dataset.apply, Tables.dataset, Table.mem_delete_rows found]
  | addRouterKey _ =>
    refine Dataset.ext rfl rfl ?_
    ext x
    simp [Dataset.apply, Tables.dataset]
  | deleteRouterKey found =>
    refine Dataset.ext rfl rfl ?_
    ext x
    simp [Dataset.apply, Tables.dataset, Table.mem_delete_rows found]
  | addAspa free =>
    refine Dataset.ext rfl ?_ rfl
    ext x
    simp [Dataset.apply, Tables.dataset, Table.mem_upsert_rows_of_none free]
  | deleteAspa found =>
    refine Dataset.ext rfl ?_ rfl
    ext x
    simp [Dataset.apply, Tables.dataset, Table.mem_delete_rows found]
  | replaceAspa found =>
    refine Dataset.ext rfl ?_ rfl
    ext x
    simp [Dataset.apply, Tables.dataset, Table.mem_upsert_rows_of_some found]

theorem dataset_applyAll (h : t.applyAll operations = some t') :
    t.dataset.applyAll operations = t'.dataset := by
  induction operations generalizing t with
  | nil =>
    cases h
    rfl
  | cons operation operations ih =>
    obtain ⟨_, hop, hrest⟩ := Option.bind_eq_some_iff.mp h
    show (t.dataset.apply operation).applyAll operations = _
    rw [(applies_of_apply hop).dataset]
    exact ih hrest

end Tables

end Rpki
