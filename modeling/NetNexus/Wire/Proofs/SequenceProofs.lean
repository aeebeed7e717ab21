import NetNexus.Wire.Sequence

/-!
# Sequences of encoded items
-/

namespace Wire

open List

variable {β α ε γ : Type*} {read : ℕ → List β → Round β α ε}

/-- A sequence of encoded items is read item by item. -/
theorem readSequence_flatMap {encode : γ → List β} {decode : γ → α} {items : List γ}
    (hpos : ∀ x ∈ items, encode x ≠ []) (hread : ∀ x ∈ items, ∀ count rest,
      read count (encode x ++ rest) = { item := some (decode x), rest }) :
    readSequence read (items.flatMap encode) = ⟨items.map decode, [], true⟩ := by
  suffices h : ∀ fuel count, (items.flatMap encode).length ≤ fuel →
      readAll read fuel count (items.flatMap encode) = ⟨items.map decode, [], true⟩ from
    h _ _ le_rfl
  induction items with
  | nil => intro fuel count _; cases fuel <;> rfl
  | cons x items ih =>
    intro fuel count hfuel
    obtain ⟨_, _, hcons⟩ := exists_cons_of_ne_nil (hpos x mem_cons_self)
    have hround := hread x mem_cons_self count (items.flatMap encode)
    rw [flatMap_cons, length_append] at hfuel
    rw [flatMap_cons]
    rw [hcons] at hfuel hround ⊢
    obtain ⟨fuel, rfl⟩ : ∃ n, fuel = n + 1 := ⟨fuel - 1, by rw [length_cons] at hfuel; omega⟩
    rw [cons_append] at hround ⊢
    rw [readAll, hround]
    have hrest := ih (fun y hy => hpos y (mem_cons_of_mem _ hy))
      (fun y hy => hread y (mem_cons_of_mem _ hy)) fuel (count + 1)
      (by rw [length_cons] at hfuel; omega)
    simp only [Option.toList_some, length_singleton, hrest]
    rfl

end Wire
