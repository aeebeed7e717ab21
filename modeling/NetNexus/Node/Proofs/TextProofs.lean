import NetNexus.Node.Text
import NetNexus.Node.Proofs.BytesProofs
import Mathlib.Tactic.IntervalCases

/-!
# Text and numbers of any width
-/

namespace Node

open List

@[simp] theorem length_uintBE (width n : ℕ) : (uintBE width n).length = width := by
  induction width generalizing n with
  | zero => rfl
  | succ _ ih => rw [uintBE, length_append, ih, length_singleton]

variable (bytes : Buffer)

theorem ofBytes_append_singleton (b : UInt8) :
    ofBytes (bytes ++ [b]) = ofBytes bytes * 2 ^ 8 + b.toNat := by
  rw [ofBytes, foldl_append]
  rfl

theorem ofBytes_uintBE {width n : ℕ} (h : n < 2 ^ (8 * width)) : ofBytes (uintBE width n) = n := by
  induction width generalizing n with
  | zero =>
    obtain rfl : n = 0 := by simpa using h
    rfl
  | succ width ih =>
    have hhigh : n / 2 ^ 8 < 2 ^ (8 * width) := by
      rw [Nat.mul_succ, Nat.pow_add] at h
      exact Nat.div_lt_of_lt_mul (by rwa [Nat.mul_comm])
    rw [uintBE, ofBytes_append_singleton, ih hhigh, UInt8.toNat_ofNat']
    omega

/-! ## Digits -/

variable {c : Char}

theorem toNat_of_isDigit (h : c.isDigit) : 48 ≤ c.toNat ∧ c.toNat ≤ 57 := by
  simpa [Char.isDigit, UInt32.le_iff_toNat_le] using h

theorem hexValue_of_isDigit (h : c.isDigit) : ∃ d < 10, hexValue c = some d := by
  obtain ⟨hlow, hhigh⟩ := toNat_of_isDigit h
  refine ⟨c.toNat - 48, by omega, ?_⟩
  rw [hexValue, if_pos ⟨hlow, hhigh⟩]
  rfl

theorem isWhiteSpace_of_isDigit (h : c.isDigit) : isWhiteSpace c = false := by
  obtain ⟨_, _⟩ := toNat_of_isDigit h
  simp [isWhiteSpace]
  omega

theorem dropWhile_isWhiteSpace {text : List Char} (h : ∀ c ∈ text, isWhiteSpace c = false) :
    text.dropWhile isWhiteSpace = text := by
  rw [dropWhile_eq_self_iff]
  intro hpos
  rw [h _ (getElem_mem hpos)]
  exact Bool.false_ne_true

theorem isDigit_of_mem_toString {n : ℕ} (h : c ∈ (toString n).toList) : c.isDigit := by
  have hdigs : (toString n).toList = Nat.toDigits 10 n := Nat.toList_repr
  rw [hdigs] at h
  exact Nat.isDigit_of_mem_toDigits (by omega) (by omega) h

theorem decimal?_toDigits (n : ℕ) : decimal? (Nat.toDigits 10 n) = some n := by
  have hne : (Nat.toDigits 10 n).isEmpty = false := by
    rw [isEmpty_eq_false_iff]
    exact Nat.toDigits_ne_nil
  have hall : (Nat.toDigits 10 n).all Char.isDigit = true := by
    rw [all_eq_true]
    exact fun c hc => Nat.isDigit_of_mem_toDigits (by omega) (by omega) hc
  have hvalue : Nat.ofDigitChars 10 (Nat.toDigits 10 n) 0 = n :=
    Nat.ofDigitChars_toDigits (by omega) (by omega)
  rw [decimal?, hne, hall, hvalue]
  rfl

theorem parseInt_of_decimal? {text : List Char} {n : ℕ} (h : decimal? text = some n) :
    parseInt (String.ofList text) = some (n : ℤ) := by
  obtain ⟨hcond, hvalue⟩ := Option.ite_none_right_eq_some.mp h
  cases hvalue
  obtain ⟨-, hdigit⟩ : text ≠ [] ∧ ∀ c ∈ text, c.isDigit := by simpa using hcond
  have hspace := dropWhile_isWhiteSpace fun c hc => isWhiteSpace_of_isDigit (hdigit c hc)
  have htake : text.takeWhile Char.isDigit = text := takeWhile_eq_self_iff.mpr hdigit
  unfold parseInt
  rw [String.toList_ofList, hspace]
  dsimp only
  split
  · rename_i hnil
    split at hnil <;> simp_all
  · split
    · simp_all
    · simp_all
    · rw [htake, one_mul]

theorem parseInt_toDigits (n : ℕ) : parseInt (String.ofList (Nat.toDigits 10 n)) = some (n : ℤ) :=
  parseInt_of_decimal? (decimal?_toDigits n)

/-! ## White space -/

theorem trim_of_forall {text : List Char} (h : ∀ c ∈ text, isWhiteSpace c = false) :
    trim text = text := by
  rw [trim, dropWhile_isWhiteSpace h, rdropWhile_eq_self_iff]
  intro hne
  rw [h _ (getLast_mem hne)]
  exact Bool.false_ne_true

theorem hexValue_digitChar_of_lt {d : ℕ} (hd : d < 16) : hexValue d.digitChar = some d := by
  interval_cases d <;> rfl

end Node
