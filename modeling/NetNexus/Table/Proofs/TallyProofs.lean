import Mathlib.Algebra.BigOperators.Ring.Finset
import NetNexus.Table.Proofs.TableProofs
import NetNexus.Table.Tally

/-!
# Counted groups: what is counted
-/

namespace Table

theorem sum_map_filter {α : Type*} (rows : List α) (p : α → Bool) (f : α → ℤ) :
    ((rows.filter p).map f).sum = (rows.map fun r => if p r then f r else 0).sum := by
  induction rows with
  | nil => rfl
  | cons r _ ih =>
    rw [List.map_cons, List.sum_cons, ← ih]
    by_cases hp : p r = true
    · rw [List.filter_cons_of_pos hp, if_pos hp, List.map_cons, List.sum_cons]
    · rw [List.filter_cons_of_neg hp, if_neg hp, zero_add]

theorem sum_map_sum_comm {α γ : Type*} (rows : List α) (cols : List γ) (f : α → γ → ℤ) :
    (rows.map fun a => (cols.map (f a)).sum).sum =
      (cols.map fun b => (rows.map fun a => f a b).sum).sum := by
  induction cols with
  | nil => simp
  | cons b _ ih =>
    simp only [List.map_cons, List.sum_cons, List.sum_map_add]
    rw [ih]

theorem sum_map_ite_key {ρ κ : Type*} [DecidableEq κ] {key : ρ → κ} (t : Table key) (f : ρ → ℤ)
    (k : κ) : (t.rows.map fun r => if key r = k then f r else 0).sum =
      ((t.find? k).map f).getD 0 := by
  have hzero : ∀ rows : List ρ, (∀ r ∈ rows, key r ≠ k) →
      (rows.map fun r => if key r = k then f r else 0).sum = 0 := by
    intro rows h
    refine List.sum_eq_zero fun x hx => ?_
    obtain ⟨r, hr, rfl⟩ := List.mem_map.mp hx
    exact if_neg (h r hr)
  cases hfind : t.find? k with
  | none =>
    refine hzero t.rows fun r hr hk => ?_
    exact (t.find?_eq_none_iff k).mp hfind (hk ▸ List.mem_map_of_mem hr)
  | some r =>
    have hkey : key r = k := key_of_find? hfind
    have hfound : t.find? (key r) = some r := by rw [hkey]; exact hfind
    obtain ⟨before, after, hrows, -⟩ := rows_upsert_split hfound
    have huniq := t.unique
    rw [hrows, List.map_append, List.map_cons, List.nodup_append, List.nodup_cons] at huniq
    obtain ⟨-, ⟨hafter, -⟩, hbef⟩ := huniq
    have hb := hzero before fun x hx he => hbef _ (List.mem_map_of_mem hx) _
      List.mem_cons_self (he.trans hkey.symm)
    have ha := hzero after fun x hx he => hafter (by rw [hkey, ← he]; exact List.mem_map_of_mem hx)
    rw [hrows, List.map_append, List.map_cons, List.sum_append, List.sum_cons, hb, ha, if_pos hkey]
    simp

end Table

namespace Tally

open List

variable {β : Type*} [DecidableEq β] {t : Tally β} {c : β → ℕ} {b : β}

theorem Exact.congr {c' : β → ℕ} (h : t.Exact c) (hc : ∀ b, c' b = c b) : t.Exact c' := by
  intro b
  rw [hc]
  exact h b

theorem Exact.up (h : t.Exact c) (b : β) :
    (t.up b).Exact fun x => c x + if x = b then 1 else 0 := by
  intro x
  have hfind : (t.up b).find? x = if b = x then some (b, (c b : ℤ) + 1) else t.find? x := by
    have hb := h b
    unfold Tally.up
    by_cases hzero : c b = 0
    · rw [if_pos hzero] at hb
      simp only [hb]
      rw [Table.find?_upsert, hzero]
      rfl
    · rw [if_neg hzero] at hb
      simp only [hb]
      rw [Table.find?_upsert]
  rw [hfind]
  by_cases hx : b = x
  · subst hx
    simp
  · have hx' : x ≠ b := fun he => hx he.symm
    simp only [if_neg hx, if_neg hx']
    exact h x

theorem Exact.down (h : t.Exact c) (hb : c b ≠ 0) :
    (t.down b).Exact fun x => c x - if x = b then 1 else 0 := by
  intro x
  have hfound : t.find? b = some (b, (c b : ℤ)) := by
    rw [h, if_neg hb]
  unfold Tally.down
  simp only [hfound]
  by_cases hone : c b = 1
  · rw [if_pos (by omega), Table.find?_delete]
    by_cases hx : x = b
    · subst hx
      simp [hone]
    · simp only [if_neg hx]
      exact h x
  · rw [if_neg (by omega), Table.find?_upsert]
    by_cases hx : b = x
    · subst hx
      have hsub : ((c b - 1 : ℕ) : ℤ) = (c b) - 1 := by omega
      rw [if_pos rfl, if_pos rfl, if_neg (by omega), hsub]
    · have hx' : x ≠ b := fun he => hx he.symm
      simp only [if_neg hx, if_neg hx']
      exact h x

theorem Exact.foldl_down {l : List β} (h : t.Exact c) (hle : ∀ b, l.count b ≤ c b) :
    Tally.Exact (l.foldl Tally.down t) fun b => c b - l.count b := by
  induction l generalizing t c with
  | nil => exact h
  | cons b l ih =>
    have hcons : ∀ x, (b :: l).count x = l.count x + if x = b then 1 else 0 := by
      intro x
      by_cases hx : x = b
      · subst hx
        simp
      · rw [if_neg hx, count_cons_of_ne fun he => hx he.symm]
        rfl
    have hb : c b ≠ 0 := by
      have hcount := hle b
      rw [hcons, if_pos rfl] at hcount
      omega
    refine (ih (h.down hb) fun x => ?_).congr fun x => ?_
    · have hcount := hle x
      rw [hcons] at hcount
      omega
    · rw [hcons]
      omega

/-- Groups that are not counted any more. -/
theorem Exact.filter (h : t.Exact c) (p : β → Bool) :
    Tally.Exact (Table.filter t fun g => p g.1) fun b => if p b then c b else 0 := by
  intro b
  rw [Table.find?_filter, h]
  by_cases hzero : c b = 0
  · simp [hzero]
  · by_cases hp : p b = true <;> simp [hzero, hp]

/-- No group is kept with a count below one. -/
theorem Exact.pos (h : t.Exact c) {g : β × ℤ} (hg : g ∈ t.rows) : 0 < g.2 ∧ g.2 = c g.1 := by
  have hfind := Table.mem_rows_iff.mp hg
  rw [h] at hfind
  split at hfind
  · cases hfind
  · rw [Option.some_inj] at hfind
    have hcount : (c g.1) = g.2 := congrArg Prod.snd hfind
    omega

omit [DecidableEq β] in
theorem total_eq_sum (t : Tally β) (p : β → Bool) :
    t.total p = (t.rows.map fun g => if p g.1 then g.2 else 0).sum :=
  Table.sum_map_filter t.rows _ Prod.snd

theorem Exact.total_eq {l : List β} (h : t.Exact fun b => l.count b) (p : β → Bool) :
    t.total p = l.countP p := by
  have hkeys : (t.rows.map Prod.fst).Perm l.dedup := by
    refine (perm_ext_iff_of_nodup t.unique l.nodup_dedup).mpr fun b => ?_
    rw [mem_dedup]
    constructor
    · intro hb
      by_contra hnot
      have hnone := h b
      simp only [count_eq_zero.mpr hnot] at hnone
      exact (t.find?_eq_none_iff b).mp hnone hb
    · intro hb
      by_contra hnot
      have hnone := h b
      have hpos : l.count b ≠ 0 := by
        rw [Ne, count_eq_zero]
        exact not_not_intro hb
      rw [(t.find?_eq_none_iff b).mpr hnot, if_neg hpos] at hnone
      cases hnone
  have hsum : t.total p =
      ((((t.rows.map Prod.fst).filter p).map l.count).sum : ℕ) := by
    rw [filter_map, map_map, Nat.cast_list_sum, map_map]
    refine congrArg List.sum (map_congr_left fun g hg => ?_)
    exact (h.pos (mem_filter.mp hg).1).2
  rw [hsum, ((hkeys.filter p).map _).sum_eq, sum_map_count_dedup_filter_eq_countP]

end Tally
