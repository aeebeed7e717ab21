import Mathlib.Algebra.Order.Ring.Int

/-!
# A log of the last changes

A state changes step by step and a log keeps the last changes, in order. Old entries may be
dropped at any time, and the whole log may be cleared. `Recalls` says that the log can bring a
client that has an earlier state up to date, as long as it still reaches back to that state;
`Numbered` says that the entries carry consecutive numbers that end with the current one.
-/

namespace Replay

variable {σ ε ν : Type*}

/-- If the last `n` changes are all in the log, replaying them on `past` gives `current`. -/
def Recalls (effect : σ → ε → σ) (past : σ) (n : ℕ) (log : List ε) (current : σ) : Prop :=
  n ≤ log.length → (log.drop (log.length - n)).foldl effect past = current

namespace Recalls

variable {effect : σ → ε → σ} {past current next : σ} {n : ℕ} {log log' : List ε} {e : ε}

theorem zero (effect : σ → ε → σ) (current : σ) (log : List ε) :
    Recalls effect current 0 log current := by
  intro _
  simp

theorem push (h : Recalls effect past n log current) (he : effect current e = next) :
    Recalls effect past (n + 1) (log ++ [e]) next := by
  intro hle
  have hn : n ≤ log.length := by simpa using hle
  have hdrop : (log ++ [e]).drop ((log ++ [e]).length - (n + 1)) =
      log.drop (log.length - n) ++ [e] := by
    have hidx : (log ++ [e]).length - (n + 1) = log.length - n := by
      rw [List.length_append, List.length_singleton]
      omega
    rw [hidx, List.drop_append_of_le_length (by omega)]
  rw [hdrop, List.foldl_append, h hn]
  exact he

/-- Dropping old entries only loses reach. -/
theorem suffix (h : Recalls effect past n log current) (hs : log' <:+ log) :
    Recalls effect past n log' current := by
  obtain ⟨old, rfl⟩ := hs
  intro hle
  have hdrop : (old ++ log').drop ((old ++ log').length - n) = log'.drop (log'.length - n) := by
    rw [List.length_append, List.drop_append, List.drop_eq_nil_of_le (by omega), List.nil_append]
    congr 1
    omega
  rw [← hdrop]
  refine h ?_
  rw [List.length_append]
  omega

theorem clear (effect : σ → ε → σ) (past current : σ) (n : ℕ) :
    Recalls effect past (n + 1) [] current := by
  intro hle
  cases hle

/-- The entries after `front` are the last ones, so replaying them catches up. -/
theorem replay {front back : List ε} (h : Recalls effect past back.length (front ++ back) current) :
    back.foldl effect past = current := by
  have hcur := h.suffix (List.suffix_append front back) (le_rfl)
  rwa [Nat.sub_self] at hcur

end Recalls

/-- Consecutive numbers that end with `current`. -/
def Numbered [AddMonoidWithOne ν] (number : ε → ν) (log : List ε) (current : ν) : Prop :=
  ∀ front e back, log = front ++ e :: back → number e + back.length = current

namespace Numbered

variable [AddMonoidWithOne ν] {number : ε → ν} {log log' : List ε} {current : ν} {e : ε}

theorem nil (number : ε → ν) (current : ν) : Numbered number [] current := by
  intro front e back h
  simp at h

theorem push (h : Numbered number log current) (he : number e = current + 1) :
    Numbered number (log ++ [e]) (current + 1) := by
  intro front x back hlog
  rcases List.eq_nil_or_concat back with rfl | ⟨back', y, rfl⟩
  · obtain ⟨-, hx⟩ := List.append_inj' hlog rfl
    rw [List.singleton_inj.mp hx] at he
    rw [List.length_nil, Nat.cast_zero, add_zero, he]
  · rw [List.concat_eq_append, ← List.cons_append, ← List.append_assoc] at hlog
    obtain ⟨hfront, -⟩ := List.append_inj' hlog rfl
    have hx := h front x back' hfront
    rw [List.concat_eq_append, List.length_append, List.length_singleton, Nat.cast_succ,
      ← add_assoc, hx]

theorem suffix (h : Numbered number log current) (hs : log' <:+ log) :
    Numbered number log' current := by
  obtain ⟨old, rfl⟩ := hs
  intro front e back hlog
  refine h (old ++ front) e back ?_
  rw [hlog, List.append_assoc]

end Numbered

end Replay
