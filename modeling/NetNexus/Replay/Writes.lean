import Mathlib.Algebra.Order.Ring.Int
import Mathlib.Data.List.Basic

/-!
# Tables kept by a stream of writes

A client keeps a table by applying writes in the order in which they arrive: a write sets the
value of a key or clears it. What it ends up with under a key depends on the last write to that
key only. `Represents` says which relation a table stands for, and `After` what writes make of it.
-/

namespace Replay

variable {κ ν : Type*} [DecidableEq κ]

/-- A write sets a key to a value, or clears it. -/
abbrev Write (κ ν : Type*) := κ × Option ν

def write (table : κ → Option ν) (w : Write κ ν) : κ → Option ν := Function.update table w.1 w.2

def writeAll (table : κ → Option ν) (ws : List (Write κ ν)) : κ → Option ν := ws.foldl write table

/-- The last write to the key, if there is one. -/
def lastWrite (k : κ) : List (Write κ ν) → Option (Option ν)
  | [] => none
  | w :: ws => (lastWrite k ws).or (if w.1 = k then some w.2 else none)

variable {k : κ} {v : ν} {ws : List (Write κ ν)}

theorem writeAll_apply (table : κ → Option ν) (ws : List (Write κ ν)) (k : κ) :
    writeAll table ws k = (lastWrite k ws).getD (table k) := by
  induction ws generalizing table with
  | nil => rfl
  | cons w ws ih =>
    show writeAll _ ws k = _
    rw [ih, lastWrite]
    cases lastWrite k ws with
    | some v => rfl
    | none =>
      by_cases hk : w.1 = k
      · subst hk
        simp [write]
      · simp [write, hk, Function.update_of_ne (Ne.symm hk)]

theorem writeAll_append (table : κ → Option ν) (xs ys : List (Write κ ν)) :
    writeAll table (xs ++ ys) = writeAll (writeAll table xs) ys := List.foldl_append

theorem lastWrite_append (k : κ) (xs ys : List (Write κ ν)) :
    lastWrite k (xs ++ ys) = (lastWrite k ys).or (lastWrite k xs) := by
  induction xs with
  | nil => simp [lastWrite]
  | cons w _ ih => rw [List.cons_append, lastWrite, lastWrite, ih, Option.or_assoc]

theorem lastWrite_eq_none_iff : lastWrite k ws = none ↔ ∀ w ∈ ws, w.1 ≠ k := by
  induction ws with
  | nil => simp [lastWrite]
  | cons w _ ih => simp [lastWrite, ih, and_comm]

theorem mem_of_lastWrite {o : Option ν} (h : lastWrite k ws = some o) : (k, o) ∈ ws := by
  induction ws with
  | nil => cases h
  | cons w _ ih =>
    rcases Option.or_eq_some_iff.mp h with h | ⟨-, h⟩
    · exact List.mem_cons_of_mem _ (ih h)
    · by_cases hk : w.1 = k
      · rw [if_pos hk, Option.some_inj] at h
        rw [← hk, ← h]
        exact List.mem_cons_self
      · rw [if_neg hk] at h
        cases h

theorem lastWrite_eq_of_mem {o : Option ν} (hmem : (k, o) ∈ ws)
    (hagree : ∀ o', (k, o') ∈ ws → o' = o) : lastWrite k ws = some o := by
  cases h : lastWrite k ws with
  | none => exact absurd rfl (lastWrite_eq_none_iff.mp h _ hmem)
  | some o' => rw [hagree o' (mem_of_lastWrite h)]

/-- The writes that set every key of a list to one value, or clear it. -/
def writesOf (keys : List κ) (o : Option ν) : List (Write κ ν) := keys.map fun k => (k, o)

omit [DecidableEq κ] in
theorem mem_writesOf {keys : List κ} {o o' : Option ν} :
    (k, o) ∈ writesOf keys o' ↔ k ∈ keys ∧ o = o' := by
  simp only [writesOf, List.mem_map, Prod.mk.injEq]
  constructor
  · rintro ⟨_, hk', rfl, rfl⟩
    exact ⟨hk', rfl⟩
  · rintro ⟨hk, rfl⟩
    exact ⟨k, hk, rfl, rfl⟩

theorem lastWrite_writesOf (k : κ) (keys : List κ) (o : Option ν) :
    lastWrite k (writesOf keys o) = if k ∈ keys then some o else none := by
  by_cases hk : k ∈ keys
  · rw [if_pos hk]
    refine lastWrite_eq_of_mem (List.mem_map.mpr ⟨k, hk, rfl⟩) ?_
    intro o' ho'
    obtain ⟨_, -, heq⟩ := List.mem_map.mp ho'
    exact (Prod.mk.inj heq).2.symm
  · rw [if_neg hk, lastWrite_eq_none_iff]
    intro w hw heq
    obtain ⟨_, hk', rfl⟩ := List.mem_map.mp hw
    exact hk (heq ▸ hk')

/-- What a relation becomes under writes. -/
def After (ws : List (Write κ ν)) (holds : κ → ν → Prop) (k : κ) (v : ν) : Prop :=
  lastWrite k ws = some (some v) ∨ (lastWrite k ws = none ∧ holds k v)

theorem after_nil (holds : κ → ν → Prop) (k : κ) (v : ν) : After [] holds k v ↔ holds k v := by
  simp [After, lastWrite]

theorem after_append (xs ys : List (Write κ ν)) (holds : κ → ν → Prop) (k : κ) (v : ν) :
    After (xs ++ ys) holds k v ↔ After ys (After xs holds) k v := by
  unfold After
  rw [lastWrite_append]
  cases lastWrite k ys <;> simp

theorem After.mono {holds holds' : κ → ν → Prop} (h : ∀ v, holds k v → holds' k v)
    (hafter : After ws holds k v) : After ws holds' k v :=
  hafter.imp id fun ⟨hnone, hv⟩ => ⟨hnone, h v hv⟩

/-- The table stands for the relation. -/
def Represents (table : κ → Option ν) (holds : κ → ν → Prop) : Prop :=
  ∀ k v, table k = some v ↔ holds k v

variable {holds : κ → ν → Prop}

theorem Represents.writeAll {table : κ → Option ν} (h : Represents table holds)
    (ws : List (Write κ ν)) : Represents (writeAll table ws) (After ws holds) := by
  intro k v
  rw [writeAll_apply, After, ← h]
  cases lastWrite k ws <;> simp

/-- Writes that agree on every key build the relation of their entries. -/
theorem represents_of_agree (ws : List (Write κ ν))
    (hagree : ∀ k o o', (k, o) ∈ ws → (k, o') ∈ ws → o' = o) :
    Represents (Replay.writeAll (fun _ => none) ws) (fun k v => (k, some v) ∈ ws) := by
  intro k v
  rw [writeAll_apply]
  constructor
  · intro h
    cases hlast : lastWrite k ws with
    | none =>
      rw [hlast] at h
      cases h
    | some o =>
      rw [hlast] at h
      subst h
      exact mem_of_lastWrite hlast
  · intro hmem
    rw [lastWrite_eq_of_mem hmem fun o' ho' => hagree k _ o' hmem ho']
    rfl

omit [DecidableEq κ] in
theorem Represents.unique {table table' : κ → Option ν} (h : Represents table holds)
    (h' : Represents table' holds) : table = table' := by
  funext k
  refine Option.ext fun v => ?_
  rw [h, h']

end Replay
