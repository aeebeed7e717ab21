import NetNexus.Control.Fallible
import NetNexus.Wire.Packing

/-!
# Messages for consecutive parts of a list

A loop does not look behind the item at which it stops, so a message is that of the items it has
taken.
-/

namespace Wire

open Control List

variable {ι β ε δ : Type} {count : ℕ} {written message : List β} {xs : List ι} {r : ℕ × List β}

section

variable {step : ℕ → List β → ι → Except ε (Option (List β))}

/-- The items that were taken give the same result without the ones behind them. -/
theorem fill_take (h : fill step count written xs = .ok r) : count ≤ r.1 ∧
    r.1 ≤ count + xs.length ∧ fill step count written (xs.take (r.1 - count)) = .ok r := by
  induction xs generalizing count written with
  | nil =>
    cases h
    exact ⟨le_rfl, le_rfl, by rw [take_nil]; rfl⟩
  | cons x xs ih =>
    obtain ⟨bytes, hstep, h⟩ := bind_ok.mp h
    cases bytes with
    | none =>
      cases h
      simp [fill]
    | some bytes =>
      obtain ⟨hle, hlen, htake⟩ := ih h
      refine ⟨by omega, by simp; omega, ?_⟩
      rw [show r.1 - count = r.1 - (count + 1) + 1 by omega, take_succ_cons, fill, hstep]
      exact htake

end

variable {noItem : ε} {start : ι → Except ε δ}
  {step : δ → ℕ → List β → ι → Except ε (Option (List β))}
  {finish : δ → List β → Except ε (List β)}

theorem build_eq_ok : build noItem start step finish xs = .ok (count, message) ↔
    ∃ x, xs.head? = some x ∧ ∃ d, start x = .ok d ∧ ∃ written,
      fill (step d) 0 [] xs = .ok (count, written) ∧ finish d written = .ok message := by
  cases xs with
  | nil => simp [build]
  | cons x xs =>
    simp [build, bind_ok, pure, Except.pure]

/-- A message is the one that is built for the items it takes. -/
theorem build_take (h : build noItem start step finish xs = .ok (count, message))
    (hpos : 0 < count) : count ≤ xs.length ∧
      build noItem start step finish (xs.take count) = .ok (count, message) := by
  obtain ⟨x, hx, d, hd, written, hfill, hfin⟩ := build_eq_ok.mp h
  obtain ⟨-, hle, htake⟩ := fill_take hfill
  refine ⟨by simpa using hle, build_eq_ok.mpr ⟨x, ?_, d, hd, written, htake, hfin⟩⟩
  rw [head?_take, if_neg (by omega), hx]

variable (limit : ℕ)

/-- The message takes all of the items. -/
def Carries (build : List ι → Except ε (ℕ × List β)) (part : List ι) (message : List β) : Prop :=
  part ≠ [] ∧ build part = .ok (part.length, message) ∧ message.length ≤ limit

/-- The messages are those of consecutive parts of the list, up to where no message can be sent. -/
theorem sendAll_build {fuel : ℕ} (hfuel : xs.length ≤ fuel) :
    let build := build noItem start step finish
    ∃ messages parts rest, sendAll build limit fuel xs = some messages ∧
      xs = parts.flatten ++ rest ∧ Forall₂ (Carries limit build) parts messages ∧
      (rest ≠ [] → ∀ count message, build rest = .ok (count, message) →
        count = 0 ∨ limit < message.length) := by
  intro build
  induction fuel generalizing xs with
  | zero =>
    obtain rfl := length_eq_zero_iff.mp (Nat.le_zero.mp hfuel)
    exact ⟨[], [], [], rfl, rfl, .nil, by simp⟩
  | succ fuel ih =>
    cases xs with
    | nil => exact ⟨[], [], [], rfl, rfl, .nil, by simp⟩
    | cons x xs =>
      rw [sendAll]
      cases hmsg : build (x :: xs) with
      | error _ => exact ⟨[], [], x :: xs, rfl, rfl, .nil, by simp [hmsg]⟩
      | ok r =>
        obtain ⟨count, message⟩ := r
        dsimp only
        split_ifs with hstop
        · refine ⟨[], [], x :: xs, rfl, rfl, .nil, fun _ _ _ h => ?_⟩
          cases hmsg.symm.trans h
          exact hstop
        · rw [not_or, not_lt] at hstop
          obtain ⟨hle, htake⟩ := build_take hmsg (Nat.pos_of_ne_zero hstop.1)
          obtain ⟨messages, parts, rest, hsent, hlist, hall, hrest⟩ :=
            @ih ((x :: xs).drop count) (by rw [length_drop]; omega)
          refine ⟨message :: messages, (x :: xs).take count :: parts, rest, by rw [hsent]; rfl, ?_,
            .cons ⟨by simp [hstop.1], ?_, hstop.2⟩ hall, hrest⟩
          · rw [flatten_cons, append_assoc, ← hlist, take_append_drop]
          · rw [length_take_of_le hle]
            exact htake

end Wire
