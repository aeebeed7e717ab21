import NetNexus.Stream.Decoder

/-!
# Receive loops that may spin or fail

A decoder need not make progress: a round may take too little off the buffer, or nothing at all,
and a round may fail and leave the buffer as it is. `Progresses` says that neither happens on a
stream, however it is cut, and `Sound` looks at the rounds on the whole stream only.
-/

namespace Stream

namespace Decoder

variable {β σ μ ε : Type*} (d : Decoder β σ μ ε)

/-- The loop over a delivery ends without a failure. -/
def Returns (c : Buffered β σ) (piece : List β) (msgs : List μ) (c' : Buffered β σ) : Prop :=
  ∃ fuel, d.drain none fuel (c.append piece) [] = some (.returned msgs c')

/-- Deliveries that all end without a failure, with the messages of each. -/
inductive Delivered : Buffered β σ → List (List β) → List (List μ) → Buffered β σ → Prop where
  | nil (c : Buffered β σ) : Delivered c [] [] c
  | cons {c c' c'' : Buffered β σ} {piece : List β} {pieces : List (List β)} {ms : List μ}
      {msgs : List (List μ)} (first : d.Returns c piece ms c')
      (rest : Delivered c' pieces msgs c'') : Delivered c (piece :: pieces) (ms :: msgs) c''

/-- The loop looks at its buffer in state `v` at some time during the deliveries. -/
inductive Visits : Buffered β σ → List (List β) → Buffered β σ → Prop where
  | now {c v : Buffered β σ} {piece : List β} {pieces : List (List β)} {ms : List μ}
      (steps : d.Steps (c.append piece) ms v) : Visits c (piece :: pieces) v
  | later {c c' v : Buffered β σ} {piece : List β} {pieces : List (List β)} {ms : List μ}
      (first : d.Returns c piece ms c') (rest : Visits c' pieces v) :
      Visits c (piece :: pieces) v

/-- However the stream is cut, all deliveries end without a failure and with nothing left to do,
every round takes at least `least` units, and the messages do not depend on the cut. -/
structure Progresses (least : ℕ) (c : Buffered β σ) (stream : List β) : Prop where
  ends : ∀ cut : List (List β), cut.flatten = stream → ∃ msgs c', d.Delivered c cut msgs c'
  clear : ∀ (cut : List (List β)) (msgs : List (List μ)) (c' : Buffered β σ),
    cut.flatten = stream → d.Delivered c cut msgs c' → d.next c'.ctl c'.buffer = .wait
  takes : ∀ (cut : List (List β)) (v : Buffered β σ) (n : ℕ) (s : σ) (out : Option μ),
    cut.flatten = stream → d.Visits c cut v → d.next v.ctl v.buffer = .take n s out → least ≤ n
  agree : ∀ (cut₁ cut₂ : List (List β)) (msgs₁ msgs₂ : List (List μ)) (c₁ c₂ : Buffered β σ),
    cut₁.flatten = stream → cut₂.flatten = stream → d.Delivered c cut₁ msgs₁ c₁ →
    d.Delivered c cut₂ msgs₂ c₂ → msgs₁.flatten = msgs₂.flatten

/-- A verdict that neither fails nor takes fewer than `least` units. -/
def Verdict.Sound (least : ℕ) : Verdict σ μ ε → Prop
  | .wait => True
  | .take n _ _ => least ≤ n
  | .fail _ _ => False

/-- All verdicts along the rounds from a state are sound. -/
def Sound (least : ℕ) (c : Buffered β σ) : Prop :=
  ∀ ms v, d.Steps c ms v → Verdict.Sound least (d.next v.ctl v.buffer)

end Decoder

end Stream
