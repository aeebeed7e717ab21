import Mathlib.Algebra.Order.Ring.Int
import Mathlib.Data.List.Basic
import Mathlib.Data.PNat.Defs

/-!
# Incremental decoders

A decoder reads a stream of units that arrives in pieces. It keeps a buffer of the units it has
not used yet together with a control state, and looks at the head of the buffer again and again:
it asks for more input, or it takes some units off the buffer (and may produce a message), or it
fails. Nothing here depends on what the units or the messages are.

`drain` is the loop a receiver runs on one delivery and `feed` the sequence of deliveries.
-/

namespace Stream

/-- What a decoder decides after looking at its buffer. -/
inductive Verdict (σ μ ε : Type*) where
  /-- The buffer does not hold enough to decide. -/
  | wait
  /-- Drop `n` units and go on in control state `s`. -/
  | take (n : ℕ) (s : σ) (out : Option μ)
  /-- Give up with the buffer as it is. -/
  | fail (s : σ) (e : ε)

/-- The control state of a decoder and the units it has not used yet. -/
structure Buffered (β σ : Type*) where
  ctl : σ
  buffer : List β
  deriving DecidableEq

/-- How the loop over one delivery ends. -/
inductive Outcome (β σ μ ε : Type*) where
  | returned (msgs : List μ) (c : Buffered β σ)
  /-- The messages collected before the failure are kept apart: the caller never sees them. -/
  | thrown (e : ε) (lost : List μ) (c : Buffered β σ)

/-- A decoder is its decision at every control state and buffer. -/
structure Decoder (β σ μ ε : Type*) where
  next : σ → List β → Verdict σ μ ε

variable {β σ μ ε κ : Type*}

/-- New input goes to the end of the buffer. -/
def Buffered.append (c : Buffered β σ) (more : List β) : Buffered β σ :=
  { c with buffer := c.buffer ++ more }

/-- A bound on the number of messages of one delivery; `none` is no bound. -/
abbrev Limit := Option ℕ+

/-- The loop may look for another message after `k` of them. -/
def Limit.allows (limit : Limit) (k : ℕ) : Bool :=
  limit.all fun n => decide (k < (n : ℕ))

namespace Decoder

variable (d : Decoder β σ μ ε)

/-- The loop over the buffer. `none` means that it has not ended after `fuel` rounds. -/
def drain (limit : Limit) : ℕ → Buffered β σ → List μ → Option (Outcome β σ μ ε)
  | 0, _, _ => none
  | fuel + 1, c, acc =>
    if limit.allows acc.length then
      match d.next c.ctl c.buffer with
      | .wait => some (.returned acc c)
      | .take n s out => drain limit fuel ⟨s, c.buffer.drop n⟩ (acc ++ out.toList)
      | .fail s e => some (.thrown e acc { c with ctl := s })
    else
      some (.returned acc c)

/-- One delivery: append the piece, then loop. Every round of a decoder that makes progress uses
a unit, so one round more than the buffer has units is enough. -/
def push (c : Buffered β σ) (piece : List β) (limit : Limit) : Option (Outcome β σ μ ε) :=
  d.drain limit ((c.append piece).buffer.length + 1) (c.append piece) []

/-- What a caller has after a sequence of deliveries: the messages each delivery returned, and
the final state or the first failure, after which nothing is delivered any more. -/
structure Fed (β σ μ ε : Type*) where
  msgs : List (List μ)
  last : Except ε (Buffered β σ)

/-- A sequence of deliveries. -/
def feed : Buffered β σ → List (List β × Limit) → Option (Fed β σ μ ε)
  | c, [] => some ⟨[], .ok c⟩
  | c, (piece, limit) :: calls =>
    match d.push c piece limit with
    | none => none
    | some (.thrown e _ _) => some ⟨[], .error e⟩
    | some (.returned msgs c') => (feed c' calls).map fun r => { r with msgs := msgs :: r.msgs }

/-- The units of a sequence of deliveries. -/
def input (calls : List (List β × Limit)) : List β := (calls.map Prod.fst).flatten

/-- The last delivery returned fewer messages than it was allowed to. -/
def Drained (calls : List (List β × Limit)) (msgs : List (List μ)) : Prop :=
  ∀ call ∈ calls.getLast?, ∀ ms ∈ msgs.getLast?, call.2.allows ms.length

/-- The pieces of a cut stream, delivered without a bound on the messages. -/
def unbounded (cut : List (List β)) : List (List β × Limit) := cut.map (·, none)

/-- However the stream is cut, the caller gets the same messages, and failures agree. -/
def SegmentationIndependent (code : ε → κ) (c : Buffered β σ) (stream : List β) : Prop :=
  ∀ cut₁ cut₂ : List (List β), cut₁.flatten = stream → cut₂.flatten = stream →
    ∃ r₁ r₂, d.feed c (unbounded cut₁) = some r₁ ∧ d.feed c (unbounded cut₂) = some r₂ ∧
      r₁.msgs.flatten = r₂.msgs.flatten ∧
      ∀ e₁ e₂, r₁.last = .error e₁ → r₂.last = .error e₂ → code e₁ = code e₂

/-- Finitely many rounds of the loop that all take something off the buffer. -/
inductive Steps : Buffered β σ → List μ → Buffered β σ → Prop where
  | refl (c : Buffered β σ) : Steps c [] c
  | head {c c' : Buffered β σ} {n : ℕ} {s : σ} {out : Option μ} {ms : List μ}
      (h : d.next c.ctl c.buffer = .take n s out)
      (hs : Steps ⟨s, c.buffer.drop n⟩ ms c') : Steps c (out.toList ++ ms) c'

/-- The decoder takes nothing off the buffer of `c`. -/
def Halted (c : Buffered β σ) : Prop :=
  ∀ n s out, d.next c.ctl c.buffer ≠ .take n s out

/-- A decision once taken does not depend on input that arrives later. Failures are compared by
their code, since the wording may name what was seen. -/
structure Stable (code : ε → κ) : Prop where
  take_append : ∀ {s buf n s' out}, d.next s buf = .take n s' out →
    ∀ more, d.next s (buf ++ more) = .take n s' out
  take_le : ∀ {s buf n s' out}, d.next s buf = .take n s' out → n ≤ buf.length
  fail_append : ∀ {s buf s' e}, d.next s buf = .fail s' e →
    ∀ more, ∃ e', d.next s (buf ++ more) = .fail s' e' ∧ code e' = code e

/-- Every round that goes on uses up input. -/
def Progress : Prop :=
  ∀ {s buf n s' out}, d.next s buf = .take n s' out → 0 < n

end Decoder

end Stream
