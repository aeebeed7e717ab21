import NetNexus.Table.Table

/-!
# Leases

Who has which address and until when: a table of leases by client, and beside it a table of clients
by address, which tells whether an address is taken. The two are written one after the other.
-/

namespace Leasing

/-- A lease that ends when the clock is past `expiresAt`. -/
structure Lease (γ α : Type) where
  client : γ
  address : α
  expiresAt : ℕ
  deriving DecidableEq

namespace Lease

variable {γ α : Type}

def isExpired (lease : Lease γ α) (now : ℕ) : Bool := lease.expiresAt < now

def renew (lease : Lease γ α) (expiresAt : ℕ) : Lease γ α := { lease with expiresAt := expiresAt }

end Lease

variable {γ α : Type}

/-- The leases by client and the clients by address. -/
structure Book (γ α : Type) where
  leases : Table (Lease.client (γ := γ) (α := α))
  holders : Table (Prod.fst : α × γ → α)

namespace Book

def empty : Book γ α := ⟨⟨[], List.nodup_nil⟩, ⟨[], List.nodup_nil⟩⟩

variable [DecidableEq γ] [DecidableEq α] (book : Book γ α)

def leaseOf (client : γ) : Option (Lease γ α) := book.leases.find? client

def holderOf (address : α) : Option γ :=
  (book.holders.find? address).map Prod.snd

/-- Write a lease into both tables. -/
def grant (lease : Lease γ α) : Book γ α where
  leases := book.leases.upsert lease
  holders := book.holders.upsert (lease.address, lease.client)

def renew (book : Book γ α) (client : γ) (expiresAt : ℕ) : Book γ α :=
  match book.leaseOf client with
  | some lease => { book with leases := book.leases.upsert (lease.renew expiresAt) }
  | none => book

/-- Put off the end of the lease that the client has, or else give it the address. -/
def acknowledge (client : γ) (address : α) (expiresAt : ℕ) : Book γ α :=
  match book.leaseOf client with
  | some _ => book.renew client expiresAt
  | none => book.grant ⟨client, address, expiresAt⟩

def release (client : γ) : Book γ α :=
  match book.leaseOf client with
  | some lease =>
    { leases := book.leases.delete client
      holders := book.holders.delete lease.address }
  | none => book

def expire (now : ℕ) : Book γ α :=
  ((book.leases.rows.filter fun lease => lease.isExpired now).map Lease.client).foldl release book

/-- A client has an address if and only if the address is taken by the client. -/
def Inverse : Prop :=
  ∀ client address, (book.leaseOf client).map Lease.address = some address ↔
    book.holderOf address = some client

/-- Leases stand behind what clients were told and has not ended, at a time at which leases are
granted for `term`. -/
structure Backs (book : Book γ α) (now term : ℕ) (acks : List (Lease γ α)) : Prop where
  bounded : ∀ ack ∈ acks, ack.expiresAt ≤ now + term
  lease : ∀ ack ∈ acks, now ≤ ack.expiresAt → ∃ lease, book.leaseOf ack.client = some lease ∧
    lease.address = ack.address ∧ ack.expiresAt ≤ lease.expiresAt

end Book

end Leasing
