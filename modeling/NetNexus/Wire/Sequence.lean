import Mathlib.Algebra.Order.Ring.Int
import Mathlib.Data.List.Basic

/-!
# Sequences of items

A reader takes items off the front of a buffer until nothing is left. It does not stop at what it
finds wrong but notes it, and goes on with whatever it leaves as the rest.
-/

namespace Wire

variable {β α ε : Type*}

/-- What a reader finds at the front of a buffer. A reader that cannot go on leaves nothing. -/
structure Round (β α ε : Type*) where
  item : Option α := none
  errors : List ε := []
  /-- The position behind the item is known. -/
  complete : Bool := true
  rest : List β := []

/-- Everything that was read from a buffer. -/
structure Sequence (α ε : Type*) where
  items : List α
  errors : List ε
  complete : Bool
  deriving DecidableEq

namespace Sequence

def empty : Sequence α ε := ⟨[], [], true⟩

/-- Nothing went wrong and nothing was cut off. -/
def valid (s : Sequence α ε) : Bool := s.errors.isEmpty && s.complete

end Sequence

/-- Read items until the buffer is empty. The reader is told how many items there were. A reader
that always takes something needs at most as many rounds as the buffer has units. -/
def readAll (read : ℕ → List β → Round β α ε) : ℕ → ℕ → List β → Sequence α ε
  | 0, _, _ => .empty
  | _ + 1, _, [] => .empty
  | fuel + 1, count, unit :: units =>
    let round := read count (unit :: units)
    let later := readAll read fuel (count + round.item.toList.length) round.rest
    ⟨round.item.toList ++ later.items, round.errors ++ later.errors,
      round.complete && later.complete⟩

/-- `readAll` with enough rounds. -/
def readSequence (read : ℕ → List β → Round β α ε) (buffer : List β) : Sequence α ε :=
  readAll read buffer.length 0 buffer

end Wire
