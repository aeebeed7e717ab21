import NetNexus.Table.Table

/-!
# Counted groups

A table that keeps how many rows of another table fall into each group, the way triggers of a
database keep it: a row that comes counts its group up, a row that goes counts its group down, and
a group that is counted down to zero is deleted.
-/

/-- Groups with the number of their rows. -/
abbrev Tally (β : Type*) := Table (Prod.fst : β × ℤ → β)

namespace Tally

variable {β : Type*} [DecidableEq β]

def up (t : Tally β) (b : β) : Tally β :=
  match t.find? b with
  | some (_, n) => t.upsert (b, n + 1)
  | none => t.upsert (b, 1)

def down (t : Tally β) (b : β) : Tally β :=
  match t.find? b with
  | some (_, n) => if n - 1 = 0 then t.delete b else t.upsert (b, n - 1)
  | none => t

/-- The groups that are counted have the counts of `c`, and the others have none to count. -/
def Exact (t : Tally β) (c : β → ℕ) : Prop :=
  ∀ b, t.find? b = if c b = 0 then none else some (b, (c b : ℤ))

/-- The number of rows in the groups with a property. -/
def total (t : Tally β) (p : β → Bool) : ℤ := ((t.rows.filter fun g => p g.1).map Prod.snd).sum

end Tally
