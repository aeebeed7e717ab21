import Mathlib.Algebra.Order.Ring.Int
import Mathlib.Data.List.Nodup

/-!
# Tables with a unique key

Rows in the order of their insertion, no two of them with the same key. This is a database table
with a unique constraint, and with pairs for rows it is a map that remembers the order in which
its keys came.
-/

/-- Rows with distinct keys, in the order of their insertion. -/
structure Table {ρ κ : Type*} (key : ρ → κ) where
  rows : List ρ
  unique : (rows.map key).Nodup

namespace Table

variable {ρ κ : Type*} [DecidableEq κ] {key : ρ → κ}

def empty : Table key := ⟨[], List.nodup_nil⟩

omit [DecidableEq κ] in
theorem length_empty : 0 = (empty : Table key).rows.length := rfl

def find? (t : Table key) (k : κ) : Option ρ := t.rows.find? fun r => key r = k

theorem find?_eq_none_iff (t : Table key) (k : κ) : t.find? k = none ↔ k ∉ t.rows.map key := by
  simp [find?]

/-- Replace the row with the key of `r` where it stands. -/
def replace (key : ρ → κ) (r : ρ) (rows : List ρ) : List ρ :=
  rows.map fun x => if key x = key r then r else x

theorem map_key_replace (r : ρ) (rows : List ρ) : (replace key r rows).map key = rows.map key := by
  rw [replace, List.map_map]
  refine List.map_congr_left fun x _ => ?_
  by_cases hx : key x = key r <;> simp [hx]

variable {t : Table key} {r : ρ}

theorem unique_append (h : t.find? (key r) = none) : ((t.rows ++ [r]).map key).Nodup := by
  rw [find?_eq_none_iff] at h
  rw [List.map_append]
  refine List.nodup_append.mpr ⟨t.unique, by simp, ?_⟩
  intro a ha b hb hab
  simp only [List.map_cons, List.map_nil, List.mem_singleton] at hb
  exact h (hb ▸ hab ▸ ha)

/-- Add a row at the end. -/
def append (t : Table key) (r : ρ) (h : t.find? (key r) = none) : Table key :=
  ⟨t.rows ++ [r], unique_append h⟩

/-- Add rows with new keys at the end. -/
def appendMany (t : Table key) (rs : List ρ) (hu : (rs.map key).Nodup)
    (hd : ∀ r ∈ rs, t.find? (key r) = none) : Table key where
  rows := t.rows ++ rs
  unique := by
    rw [List.map_append]
    refine List.nodup_append.mpr ⟨t.unique, hu, ?_⟩
    intro a ha b hb hab
    obtain ⟨r, hr, rfl⟩ := List.mem_map.mp hb
    exact (t.find?_eq_none_iff _).mp (hd r hr) (hab ▸ ha)

/-- Add a row unless its key is taken. -/
def insert (t : Table key) (r : ρ) : Table key :=
  match h : t.find? (key r) with
  | some _ => t
  | none => t.append r h

def upsert (t : Table key) (r : ρ) : Table key :=
  match h : t.find? (key r) with
  | some _ =>
    { rows := replace key r t.rows
      unique := by
        rw [map_key_replace]
        exact t.unique }
  | none => t.append r h

def delete (t : Table key) (k : κ) : Table key where
  rows := t.rows.filter fun r => key r ≠ k
  unique := t.unique.sublist (List.filter_sublist.map _)

/-- Keep the rows that have a property. -/
def filter (t : Table key) (p : ρ → Bool) : Table key where
  rows := t.rows.filter p
  unique := t.unique.sublist (List.filter_sublist.map _)

def modify (t : Table key) (f : ρ → ρ) (hf : ∀ r, key (f r) = key r) : Table key where
  rows := t.rows.map f
  unique := by
    rw [List.map_map, show key ∘ f = key from funext hf]
    exact t.unique

theorem length_delete {k : κ} (h : t.find? k = some r) :
    (t.delete k).rows.length + 1 = t.rows.length := by
  have hcount : (t.rows.map key).count k = 1 := by
    refine List.count_eq_one_of_mem t.unique ?_
    by_contra hnot
    rw [(t.find?_eq_none_iff k).mpr hnot] at h
    cases h
  have hsplit := List.length_eq_length_filter_add (l := t.rows) fun r => key r ≠ k
  rw [List.count, List.countP_map, List.countP_eq_length_filter] at hcount
  have hfilt : (t.rows.filter fun r => !decide (key r ≠ k)).length = 1 := by
    rw [← hcount]
    congr 2
    funext r
    by_cases hr : key r = k <;> simp [hr]
  rw [hsplit, hfilt]
  rfl

theorem length_upsert_of_some {r r' : ρ} (h : t.find? (key r) = some r') :
    (t.upsert r).rows.length = t.rows.length := by
  unfold upsert
  split
  · simp [replace]
  · rename_i hnone
    rw [h] at hnone
    cases hnone

theorem length_upsert_of_none (h : t.find? (key r) = none) :
    (t.upsert r).rows.length = t.rows.length + 1 := by
  unfold upsert
  split
  · rename_i hsome
    rw [h] at hsome
    cases hsome
  · simp [append]

theorem mem_keys_upsert {k : κ} :
    k ∈ (t.upsert r).rows.map key ↔ k = key r ∨ k ∈ t.rows.map key := by
  unfold upsert
  split
  · rename_i hsome
    have hmem : key r ∈ t.rows.map key := by
      by_contra hnot
      rw [(t.find?_eq_none_iff _).mpr hnot] at hsome
      cases hsome
    rw [map_key_replace]
    refine ⟨.inr, ?_⟩
    rintro (rfl | hk)
    · exact hmem
    · exact hk
  · simp [append, or_comm]

/-- The rows of a list that bring a new key. -/
def fresh (t : Table key) (rs : List ρ) : List ρ := rs.filter fun r => t.find? (key r) = none

theorem length_foldl_upsert {rs : List ρ} (hu : (rs.map key).Nodup) :
    (rs.foldl upsert t).rows.length = t.rows.length + (t.fresh rs).length := by
  induction rs generalizing t with
  | nil => rfl
  | cons r rs ih =>
    rw [List.map_cons, List.nodup_cons] at hu
    have hfresh : (t.upsert r).fresh rs = t.fresh rs := by
      refine List.filter_congr fun x hx => ?_
      have hne : key x ≠ key r := fun he => hu.1 (he ▸ List.mem_map_of_mem hx)
      rw [decide_eq_decide, find?_eq_none_iff, find?_eq_none_iff, mem_keys_upsert]
      simp [hne]
    rw [List.foldl_cons, ih hu.2, hfresh]
    cases hf : t.find? (key r) with
    | some _ => simp [length_upsert_of_some, fresh, hf]
    | none =>
      rw [length_upsert_of_none hf]
      simp [fresh, hf]
      omega

end Table
