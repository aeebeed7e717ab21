import NetNexus.Table.Table

/-!
# Tables with a unique key: reading after writing
-/

namespace Table

open List

variable {ρ κ : Type*} [DecidableEq κ] {key : ρ → κ} {t : Table key} {r r' : ρ} {k : κ}

theorem key_of_find? (h : t.find? k = some r) : key r = k := by
  have hr := find?_some h
  simpa using hr

theorem find?_eq_some_iff : t.find? k = some r ↔ r ∈ t.rows ∧ key r = k := by
  constructor
  · intro h
    exact ⟨mem_of_find?_eq_some h, key_of_find? h⟩
  · rintro ⟨hmem, rfl⟩
    cases hf : t.find? _ with
    | none =>
      rw [find?_eq_none_iff] at hf
      exact absurd (mem_map_of_mem hmem) hf
    | some _ =>
      have hmem' := mem_of_find?_eq_some hf
      rw [inj_on_of_nodup_map t.unique hmem' hmem (key_of_find? hf)]

theorem mem_rows_iff : r ∈ t.rows ↔ t.find? (key r) = some r := by
  rw [find?_eq_some_iff]
  simp

theorem find?_append (h : t.find? (key r) = none) (k : κ) :
    (t.append r h).find? k = if key r = k then some r else t.find? k := by
  rw [find?, append]
  by_cases hk : key r = k
  · subst hk
    rw [find?] at h
    simp [h]
  · simp [hk, find?]

theorem insert_of_some (h : t.find? (key r) = some r') : t.insert r = t := by
  unfold insert
  split
  · rfl
  · simp_all

theorem insert_of_none (h : t.find? (key r) = none) : t.insert r = t.append r h := by
  unfold insert
  split
  · simp_all
  · rfl

theorem find?_insert (t : Table key) (r : ρ) (k : κ) :
    (t.insert r).find? k = (t.find? k).or (if key r = k then some r else none) := by
  cases h : t.find? (key r) with
  | some _ =>
    rw [insert_of_some h]
    by_cases hk : key r = k
    · subst hk
      rw [h]
      rfl
    · rw [if_neg hk, Option.or_none]
  | none =>
    rw [insert_of_none h, find?_append]
    by_cases hk : key r = k
    · subst hk
      rw [h]
      rfl
    · rw [if_neg hk, if_neg hk, Option.or_none]

theorem find?_insert_of_some (h : t.find? k = some r') : (t.insert r).find? k = some r' := by
  rw [find?_insert, h]
  rfl

theorem find?_insert_isSome (t : Table key) (r : ρ) : ((t.insert r).find? (key r)).isSome := by
  rw [find?_insert]
  simp

/-- A row that is found after an insertion was there or is the one that was inserted. -/
theorem isSome_find?_insert (h : ((t.insert r).find? k).isSome) :
    (t.find? k).isSome ∨ key r = k := by
  rw [find?_insert, Option.isSome_or, Bool.or_eq_true] at h
  refine h.imp_right fun hsome => ?_
  by_contra hk
  rw [if_neg hk] at hsome
  cases hsome

theorem find?_upsert (t : Table key) (r : ρ) (k : κ) :
    (t.upsert r).find? k = if key r = k then some r else t.find? k := by
  unfold upsert
  split
  · rename_i old hold
    obtain ⟨hmem, hkey⟩ := find?_eq_some_iff.mp hold
    by_cases hk : key r = k
    · subst hk
      rw [if_pos rfl, find?_eq_some_iff]
      exact ⟨mem_map.mpr ⟨old, hmem, by rw [if_pos hkey]⟩, rfl⟩
    · rw [if_neg hk]
      cases hf : t.find? k with
      | none =>
        rw [find?_eq_none_iff] at hf ⊢
        rwa [map_key_replace]
      | some r' =>
        obtain ⟨hmem', hkey'⟩ := find?_eq_some_iff.mp hf
        refine find?_eq_some_iff.mpr ⟨mem_map.mpr ⟨r', hmem', ?_⟩, hkey'⟩
        exact if_neg fun he => hk (he.symm.trans hkey')
  · exact find?_append _ k

theorem find?_delete (t : Table key) (k k' : κ) :
    (t.delete k).find? k' = if k' = k then none else t.find? k' := by
  by_cases hk : k' = k
  · subst hk
    rw [if_pos rfl, find?_eq_none_iff]
    simp [delete]
  · rw [if_neg hk]
    cases hf : t.find? k' with
    | none =>
      rw [find?_eq_none_iff] at hf ⊢
      intro hmem
      obtain ⟨r, hr, hkey⟩ := mem_map.mp hmem
      exact hf (mem_map.mpr ⟨r, (mem_filter.mp hr).1, hkey⟩)
    | some r =>
      obtain ⟨hmem, hkey⟩ := find?_eq_some_iff.mp hf
      refine find?_eq_some_iff.mpr ⟨mem_filter.mpr ⟨hmem, ?_⟩, hkey⟩
      simpa [hkey] using hk

/-! ## Membership -/

variable {x : ρ}

@[simp] theorem mem_append_rows (h : t.find? (key r) = none) :
    x ∈ (t.append r h).rows ↔ x = r ∨ x ∈ t.rows := by
  simp [append, or_comm]

theorem key_ne_iff (h : t.find? k = some r) (hx : x ∈ t.rows) : key x ≠ k ↔ x ≠ r := by
  obtain ⟨hmem, hkey⟩ := find?_eq_some_iff.mp h
  refine not_congr ⟨fun he => ?_, fun he => he ▸ hkey⟩
  exact inj_on_of_nodup_map t.unique hx hmem (he.trans hkey.symm)

theorem mem_delete_rows (h : t.find? k = some r) : x ∈ (t.delete k).rows ↔ x ∈ t.rows ∧ x ≠ r := by
  rw [delete, mem_filter, decide_eq_true_eq]
  exact and_congr_right fun hx => key_ne_iff h hx

theorem mem_upsert_rows_iff : x ∈ (t.upsert r).rows ↔ x = r ∨ x ∈ t.rows ∧ key x ≠ key r := by
  rw [mem_rows_iff, find?_upsert]
  by_cases hx : key r = key x
  · simp [hx, eq_comm]
  · rw [if_neg hx, ← mem_rows_iff]
    refine ⟨fun hmem => .inr ⟨hmem, fun he => hx he.symm⟩, ?_⟩
    rintro (rfl | ⟨hmem, -⟩)
    · exact absurd rfl hx
    · exact hmem

theorem mem_upsert_rows_of_some (h : t.find? (key r) = some r') :
    x ∈ (t.upsert r).rows ↔ x = r ∨ x ∈ t.rows ∧ x ≠ r' := by
  rw [mem_upsert_rows_iff]
  exact or_congr_right (and_congr_right (key_ne_iff h))

theorem mem_upsert_rows (h : x ∈ (t.upsert r).rows) : x = r ∨ x ∈ t.rows :=
  (mem_upsert_rows_iff.mp h).imp_right And.left

theorem mem_upsert_self : r ∈ (t.upsert r).rows := mem_upsert_rows_iff.mpr (.inl rfl)

theorem rows_upsert_of_none (h : t.find? (key r) = none) : (t.upsert r).rows = t.rows ++ [r] := by
  unfold upsert
  split
  · rename_i hsome
    rw [h] at hsome
    cases hsome
  · rfl

theorem mem_upsert_rows_of_none (h : t.find? (key r) = none) :
    x ∈ (t.upsert r).rows ↔ x = r ∨ x ∈ t.rows := by
  rw [rows_upsert_of_none h, mem_append, mem_singleton, or_comm]

theorem rows_upsert_of_some (h : t.find? (key r) = some r') :
    (t.upsert r).rows = replace key r t.rows := by
  unfold upsert
  split
  · rfl
  · rename_i hnone
    rw [h] at hnone
    cases hnone

/-! ## Tables whose rows are their keys -/

theorem mem_insert_rows_id {t : Table (id : κ → κ)} {r x : κ} :
    x ∈ (t.insert r).rows ↔ x = r ∨ x ∈ t.rows := by
  cases h : t.find? _ with
  | some r' =>
    have hr : r' = r := key_of_find? h
    rw [insert_of_some h]
    refine ⟨.inr, ?_⟩
    rintro (rfl | hx)
    · exact hr ▸ (find?_eq_some_iff.mp h).1
    · exact hx
  | none =>
    rw [insert_of_none h, append, mem_append, mem_singleton]
    exact or_comm

theorem mem_foldl_insert_id {t : Table (id : κ → κ)} {rows : List κ} {x : κ} :
    x ∈ (rows.foldl insert t).rows ↔ x ∈ rows ∨ x ∈ t.rows := by
  induction rows generalizing t with
  | nil => simp
  | cons r _ ih =>
    rw [foldl_cons, ih, mem_insert_rows_id, mem_cons]
    tauto

/-! ## Changing rows in place -/

/-- A row that is written over stands where the old one stood. -/
theorem rows_upsert_split (h : t.find? (key r) = some r') :
    ∃ before after, t.rows = before ++ r' :: after ∧ (t.upsert r).rows = before ++ r :: after := by
  obtain ⟨hmem, hkey⟩ := find?_eq_some_iff.mp h
  obtain ⟨before, after, hrows⟩ := append_of_mem hmem
  refine ⟨before, after, hrows, ?_⟩
  have huniq := t.unique
  rw [hrows, map_append, map_cons, nodup_append, nodup_cons] at huniq
  obtain ⟨-, ⟨hafter, -⟩, hbef⟩ := huniq
  have hother : ∀ x, x ∈ before ∨ x ∈ after → key x ≠ key r := by
    rintro x (hx | hx) he
    · exact hbef _ (mem_map_of_mem hx) _ mem_cons_self (he.trans hkey.symm)
    · exact hafter (by rw [hkey, ← he]; exact mem_map_of_mem hx)
  rw [rows_upsert_of_some h, hrows]
  unfold replace
  rw [map_append, map_cons, if_pos hkey]
  congr 1
  · refine (map_congr_left fun x hx => if_neg (hother x (.inl hx))).trans (map_id _)
  · congr 1
    exact (map_congr_left fun x hx => if_neg (hother x (.inr hx))).trans (map_id _)

theorem find?_filter (t : Table key) (p : ρ → Bool) (k : κ) :
    (t.filter p).find? k = (t.find? k).filter p := by
  refine Option.ext fun r => ?_
  rw [find?_eq_some_iff, Option.filter_eq_some_iff, find?_eq_some_iff]
  show r ∈ t.rows.filter p ∧ key r = k ↔ _
  rw [mem_filter]
  tauto

theorem isSome_find?_filter {t : Table key} {p : ρ → Bool} {k : κ} {q : Prop}
    (hp : ∀ r, key r = k → (p r = true ↔ q)) :
    ((t.filter p).find? k).isSome = true ↔ (t.find? k).isSome = true ∧ q := by
  rw [find?_filter]
  cases hfind : t.find? k with
  | none => simp
  | some r => simp [hp r (key_of_find? hfind)]

omit [DecidableEq κ] in
theorem eq_of_rows {t t' : Table key} (h : t.rows = t'.rows) : t = t' := by
  cases t
  cases t'
  cases h
  rfl

theorem find?_modify (t : Table key) (f : ρ → ρ) (hf : ∀ r, key (f r) = key r) (k : κ) :
    (t.modify f hf).find? k = (t.find? k).map f := by
  have hsame : (fun r => decide (key r = k)) ∘ f = fun r => decide (key r = k) :=
    funext fun r => congrArg (fun found => decide (found = k)) (hf r)
  unfold find? modify
  rw [List.find?_map, hsame]

/-- A change in place goes through an insertion. -/
theorem modify_upsert (t : Table key) (r : ρ) (f : ρ → ρ) (hf : ∀ r, key (f r) = key r) :
    (t.upsert r).modify f hf = (t.modify f hf).upsert (f r) := by
  refine eq_of_rows ?_
  cases h : t.find? _ with
  | none =>
    have hmod : (t.modify f hf).find? (key (f r)) = none := by
      rw [find?_modify, hf, h]
      rfl
    rw [rows_upsert_of_none hmod]
    show (t.upsert r).rows.map f = t.rows.map f ++ _
    rw [rows_upsert_of_none h, map_append, map_singleton]
  | some old =>
    have hmod : (t.modify f hf).find? (key (f r)) = some (f old) := by
      rw [find?_modify, hf, h]
      rfl
    rw [rows_upsert_of_some hmod]
    show (t.upsert r).rows.map f = replace key _ (t.rows.map f)
    rw [rows_upsert_of_some h]
    unfold replace
    rw [map_map, map_map]
    refine map_congr_left fun x _ => ?_
    simp only [Function.comp_apply, hf]
    split <;> rfl

theorem upsert_self (h : t.find? k = some r) : t.upsert r = t := by
  obtain rfl := key_of_find? h
  refine eq_of_rows ?_
  rw [rows_upsert_of_some h]
  conv_rhs => rw [← map_id t.rows]
  refine map_congr_left fun x hx => ?_
  split
  · rename_i hkey
    exact inj_on_of_nodup_map t.unique (find?_eq_some_iff.mp h).1 hx hkey.symm
  · rfl

omit [DecidableEq κ] in
theorem modify_congr {f g : ρ → ρ} (hf : ∀ r, key (f r) = key r) (hg : ∀ r, key (g r) = key r)
    (h : ∀ r ∈ t.rows, f r = g r) : t.modify f hf = t.modify g hg :=
  eq_of_rows (map_congr_left h)

end Table
