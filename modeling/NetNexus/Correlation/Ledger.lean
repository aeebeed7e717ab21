import Mathlib.Algebra.Order.Ring.Int

/-!
# Requests and replies

One side sends requests under ids of its choice, the other side answers them in any order. A
request that is given up leaves its id behind as retired, so that its reply, should it still come,
is not taken for the reply to a later request. A ledger is what the sender knows; the entries of a
log say what happened. Requests are numbered in the order in which they are made.
-/

namespace Correlation

/-- What can happen, with ids `ι`, requests `ρ`, replies `μ` and reasons of failure `φ`. -/
inductive Entry (ι ρ μ φ : Type*) where
  | issued (request : ℕ) (id : ι) (content : ρ)
  | refused (request : ℕ) (failure : φ)
  | answered (request : ℕ) (reply : μ)
  | orphan (reply : μ)
  /-- A request is given up. -/
  | abandoned (request : ℕ) (failure : φ)
  /-- A request fails because the session ends. -/
  | dropped (request : ℕ) (failure : φ)
  | closed
  deriving DecidableEq

namespace Entry

variable {ι ρ μ φ : Type*}

def settles : Entry ι ρ μ φ → Option ℕ
  | .refused n _ | .answered n _ | .abandoned n _ | .dropped n _ => some n
  | .issued _ _ _ | .orphan _ | .closed => none

def reply : Entry ι ρ μ φ → Option μ
  | .answered _ m | .orphan m => some m
  | _ => none

end Entry

/-- The requests made so far, those that wait and the ids that are not to be used. -/
structure Ledger (ι : Type*) where
  next : ℕ
  pending : ι → Option ℕ
  retired : Set ι
  isOpen : Bool

namespace Ledger

variable {ι ρ μ φ : Type*} [DecidableEq ι]

def initial : Ledger ι := ⟨0, fun _ => none, ∅, true⟩

/-- No request waits under the id any more. -/
def release (s : Ledger ι) (id : ι) : Ledger ι :=
  { s with pending := Function.update s.pending id none }

/-- The moves of a session. `carried` is the id of a reply. -/
inductive Step (carried : μ → Option ι) : Ledger ι → Entry ι ρ μ φ → Ledger ι → Prop
  | issued {s : Ledger ι} {id : ι} (content : ρ) (hopen : s.isOpen = true)
      (hpend : s.pending id = none) (hretired : id ∉ s.retired) :
      Step carried s (.issued s.next id content)
        { s with next := s.next + 1, pending := Function.update s.pending id (some s.next) }
  | refused {s : Ledger ι} (failure : φ) :
      Step carried s (.refused s.next failure) { s with next := s.next + 1 }
  | answered {s : Ledger ι} {m : μ} {id : ι} {n : ℕ} (hopen : s.isOpen = true)
      (hid : carried m = some id) (hpend : s.pending id = some n) :
      Step carried s (.answered n m) (s.release id)
  /-- Only the id of the reply may be taken off the retired ones. -/
  | orphan {s : Ledger ι} {m : μ} {retired : Set ι} (hopen : s.isOpen = true)
      (hsub : retired ⊆ s.retired)
      (hkept : ∀ id ∈ s.retired, carried m ≠ some id → id ∈ retired) :
      Step carried s (.orphan m) { s with retired }
  | abandoned {s : Ledger ι} {id : ι} {n : ℕ} (failure : φ) (hpend : s.pending id = some n) :
      Step carried s (.abandoned n failure)
        { s.release id with retired := insert id s.retired }
  | dropped {s : Ledger ι} {id : ι} {n : ℕ} (failure : φ) (hpend : s.pending id = some n) :
      Step carried s (.dropped n failure) { s.release id with isOpen := false }
  | closed {s : Ledger ι} (hpend : ∀ id, s.pending id = none) :
      Step carried s .closed { s with retired := ∅, isOpen := false }

/-- A session: the entries in the order in which they happened. -/
inductive Steps (carried : μ → Option ι) (s : Ledger ι) : List (Entry ι ρ μ φ) → Ledger ι → Prop
  | nil : Steps carried s [] s
  | snoc {log : List (Entry ι ρ μ φ)} {t u : Ledger ι} {e : Entry ι ρ μ φ} :
      Steps carried s log t → Step carried t e u → Steps carried s (log ++ [e]) u

end Ledger

variable {ι ρ μ φ : Type*}

/-- The requests that were settled, in order. -/
def settled (log : List (Entry ι ρ μ φ)) : List ℕ := log.filterMap Entry.settles

/-- The entry at `k` is the reply `m`. -/
def ReplyAt (log : List (Entry ι ρ μ φ)) (k : ℕ) (m : μ) : Prop :=
  log[k]?.bind Entry.reply = some m

/-- `source` tells for the place of every reply which request it is the reply to: a request that
went out before, whose content carries the id of the reply, and each request has one reply at
most. -/
structure Serves (carried : μ → Option ι) (wire : ρ → Option ι) (log : List (Entry ι ρ μ φ))
    (source : ℕ → ℕ) : Prop where
  sent : ∀ {k : ℕ} {m : μ}, ReplyAt log k m → ∃ j < k, ∃ id content,
    log[j]? = some (.issued (source k) id content) ∧ carried m = wire content
  once : ∀ {j k : ℕ} {m m' : μ}, ReplyAt log j m → ReplyAt log k m' → source j = source k → j = k

end Correlation
