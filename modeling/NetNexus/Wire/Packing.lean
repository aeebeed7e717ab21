import Mathlib.Algebra.Order.Ring.Int
import Mathlib.Data.List.Basic

/-!
# Packing

Messages of bounded length are filled with the encodings of items from the front of a list. Every
loop returns how many items it has taken and what it has written.
-/

namespace Wire

variable {ι β ε δ : Type}

/-- Take items as long as there is something to write for them. A step is told how many there were
and what was written. -/
def fill (step : ℕ → List β → ι → Except ε (Option (List β))) :
    ℕ → List β → List ι → Except ε (ℕ × List β)
  | count, written, [] => .ok (count, written)
  | count, written, x :: xs => do
    match ← step count written x with
    | none => return (count, written)
    | some bytes => fill step (count + 1) (written ++ bytes) xs

/-- Build a message. What stands before the items depends on the first one. -/
def build (noItem : ε) (start : ι → Except ε δ)
    (step : δ → ℕ → List β → ι → Except ε (Option (List β)))
    (finish : δ → List β → Except ε (List β)) : List ι → Except ε (ℕ × List β)
  | [] => .error noItem
  | x :: xs => do
    let d ← start x
    let (count, written) ← fill (step d) 0 [] (x :: xs)
    return (count, ← finish d written)

/-- Build and send messages until no item is left. The loop gives up at a message that could not be
built, takes no item or is too long. `none` if `fuel` messages were not enough. -/
def sendAll (build : List ι → Except ε (ℕ × List β)) (limit : ℕ) :
    ℕ → List ι → Option (List (List β))
  | _, [] => some []
  | 0, _ :: _ => none
  | fuel + 1, x :: xs =>
    match build (x :: xs) with
    | .error _ => some []
    | .ok (count, message) =>
      if count = 0 ∨ limit < message.length then some []
      else (sendAll build limit fuel ((x :: xs).drop count)).map (message :: ·)

/-! ## Steps -/

/-- How items are packed into a message. -/
structure Packing (ι β ε : Type) where
  encode : ι → Except ε (List β)
  /-- The item may not follow the ones that were taken. -/
  stops : ℕ → List β → ι → Except ε Bool
  /-- The length of the message without the items. -/
  used : ℕ
  limit : ℕ

namespace Packing

variable (p : Packing ι β ε)

/-- An item is taken if it fits. With `force` the first item with an encoding is taken whatever its
length. -/
def step (force : Bool) (count : ℕ) (written : List β) (x : ι) : Except ε (Option (List β)) := do
  if ← p.stops count written x then return none
  else
    let bytes ← p.encode x
    if p.limit < p.used + written.length + bytes.length ∧ ¬ (force ∧ written = []) then return none
    else return some bytes

/-- The step of a loop that encodes an item before it looks at anything else. -/
def stepAhead (count : ℕ) (written : List β) (x : ι) : Except ε (Option (List β)) := do
  let bytes ← p.encode x
  if p.limit < p.used + written.length + bytes.length then return none
  else if ← p.stops count written x then return none
  else return some bytes

end Packing

end Wire
