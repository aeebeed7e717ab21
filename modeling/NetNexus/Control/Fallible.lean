import Mathlib.Algebra.Order.Ring.Int
import Mathlib.Data.List.Forall2

/-!
# Computations that may fail

How the parts of a computation in `Except` are read off its result.
-/

namespace Control

variable {ε α γ : Type} {x : Except ε α} {f : α → Except ε γ} {xs : List α}

theorem bind_ok {c : γ} : x >>= f = .ok c ↔ ∃ a, x = .ok a ∧ f a = .ok c := by
  cases x with
  | error e =>
    show Except.error e = .ok c ↔ _
    simp
  | ok a =>
    show f a = .ok c ↔ _
    simp

theorem map_eq_ok {f : α → γ} {c : γ} : f <$> x = .ok c ↔ ∃ a, x = .ok a ∧ f a = c := by
  cases x with
  | error e =>
    simp
  | ok a =>
    simp

theorem ite_error_eq_ok {p : Prop} [Decidable p] {e : ε} {a : α} :
    (if p then .error e else x) = .ok a ↔ ¬ p ∧ x = .ok a := by
  by_cases hp : p <;> simp [hp]

theorem ite_eq_ok_error {p : Prop} [Decidable p] {e : ε} {a : α} :
    (if p then x else .error e) = .ok a ↔ p ∧ x = .ok a := by
  by_cases hp : p <;> simp [hp]

/-- The value of a computation, or another one if it fails. -/
def okOr (fallback : α) : Except ε α → α
  | .ok a => a
  | .error _ => fallback

theorem mapM_eq_ok_iff {ys : List γ} :
    xs.mapM f = .ok ys ↔ List.Forall₂ (fun x y => f x = .ok y) xs ys := by
  induction xs generalizing ys with
  | nil => simp [pure, Except.pure]
  | cons x _ ih =>
    simp only [List.mapM_cons, bind_ok, ih, List.forall₂_cons_left_iff]
    simp [pure, Except.pure, eq_comm]

theorem exists_mapM_eq_ok : (∃ ys, xs.mapM f = .ok ys) ↔ ∀ x ∈ xs, ∃ y, f x = .ok y := by
  simp only [mapM_eq_ok_iff]
  induction xs with
  | nil => simp
  | cons x _ _ =>
    rw [List.forall_mem_cons]
    simp only [List.forall₂_cons_left_iff]
    grind

theorem mapM_eq_ok {g : α → γ} (h : ∀ x ∈ xs, f x = .ok (g x)) : xs.mapM f = .ok (xs.map g) :=
  mapM_eq_ok_iff.mpr (List.forall₂_map_right_iff.mpr (List.forall₂_same.mpr h))

/-- Each of the computations of a list that has a result has one. -/
theorem ok_of_mem_mapM {ys : List γ} (h : xs.mapM f = .ok ys) {x : α} (hx : x ∈ xs) :
    ∃ y ∈ ys, f x = .ok y := by
  have hall := mapM_eq_ok_iff.mp h
  obtain ⟨i, hi, rfl⟩ := List.getElem_of_mem hx
  exact ⟨_, List.getElem_mem (hall.length_eq ▸ hi), hall.get hi _⟩

/-- What a computation produces from a list comes from the list. -/
theorem exists_of_mem_mapM {ys : List γ} (h : xs.mapM f = .ok ys) {y : γ} (hy : y ∈ ys) :
    ∃ x ∈ xs, f x = .ok y := by
  have hall := mapM_eq_ok_iff.mp h
  obtain ⟨i, hi, rfl⟩ := List.getElem_of_mem hy
  exact ⟨_, List.getElem_mem (hall.length_eq ▸ hi), hall.get _ hi⟩

end Control
