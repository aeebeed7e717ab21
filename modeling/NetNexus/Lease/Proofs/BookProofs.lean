import NetNexus.Lease.Book
import NetNexus.Table.Proofs.TableProofs
import Mathlib.Order.Nat

/-!
# The two tables of leases stay inverse

Then every address has one client among those whose leases stand behind what they were told.
-/

namespace Leasing

open List

namespace Book

variable {γ α : Type} [DecidableEq γ] [DecidableEq α] {book : Book γ α}

theorem inverse_empty : (empty : Book γ α).Inverse := fun _ _ => by
  constructor <;> intro h <;> cases h

variable {client : γ} {address : α}

/-! ## What an operation leaves -/

section

variable (book client address) (other : γ) (lease : Lease γ α) (expiresAt now : ℕ)

theorem leaseOf_grant : (book.grant lease).leaseOf client =
    if lease.client = client then some lease else book.leaseOf client :=
  Table.find?_upsert ..

theorem holderOf_grant : (book.grant lease).holderOf address =
    if lease.address = address then some lease.client else book.holderOf address := by
  unfold holderOf grant
  rw [Table.find?_upsert]
  split <;> rfl

omit [DecidableEq α] in
theorem leaseOf_renew : (book.renew client expiresAt).leaseOf other =
    if client = other then (book.leaseOf client).map (Lease.renew · expiresAt)
    else book.leaseOf other := by
  unfold renew
  cases hlease : book.leaseOf client with
  | none =>
    dsimp only
    split
    · rename_i heq
      rw [← heq, hlease]
      rfl
    · rfl
  | some lease =>
    have hcli : lease.client = client := Table.key_of_find? hlease
    show (book.leases.upsert _).find? other = _
    rw [Table.find?_upsert]
    show (if lease.client = other then _ else _) = _
    rw [hcli]
    rfl

theorem holderOf_renew :
    (book.renew client expiresAt).holderOf address = book.holderOf address := by
  unfold renew
  split <;> rfl

/-- The leases of the other clients stay, and that of the client has the address that it had, or
else the new one. -/
theorem leaseOf_acknowledge : (book.acknowledge client address expiresAt).leaseOf other =
    if client = other then
      some ⟨client, ((book.leaseOf client).map Lease.address).getD address, expiresAt⟩
    else book.leaseOf other := by
  unfold acknowledge
  cases hlease : book.leaseOf client with
  | none => rw [leaseOf_grant]; rfl
  | some _ =>
    rw [leaseOf_renew, hlease]
    split
    · rw [← Table.key_of_find? hlease]
      rfl
    · rfl

theorem leaseOf_release :
    (book.release client).leaseOf other = if other = client then none else book.leaseOf other := by
  unfold release
  cases hlease : book.leaseOf client with
  | none =>
    dsimp only
    split
    · rename_i heq
      rw [heq, hlease]
    · rfl
  | some _ => exact Table.find?_delete ..

theorem holderOf_release : (book.release client).holderOf address =
    if (book.leaseOf client).map Lease.address = some address then none
    else book.holderOf address := by
  unfold release
  cases hlease : book.leaseOf client with
  | none => rfl
  | some lease =>
    show ((book.holders.delete lease.address).find? address).map Prod.snd = _
    rw [Table.find?_delete, Option.map_some]
    by_cases heq : address = lease.address
    · rw [if_pos heq, if_pos (congrArg some heq.symm)]
      rfl
    · rw [if_neg heq, if_neg fun hsome => heq (Option.some_inj.mp hsome).symm]
      rfl

/-- A lease that has not ended stays. -/
theorem leaseOf_foldl_release (clients : List γ) :
    (clients.foldl Book.release book).leaseOf client =
      if client ∈ clients then none else book.leaseOf client := by
  induction clients generalizing book with
  | nil => rfl
  | cons first clients ih =>
    rw [foldl_cons, ih, leaseOf_release]
    by_cases hmem : client ∈ clients
    · rw [if_pos hmem, if_pos (mem_cons_of_mem first hmem)]
    · by_cases heq : client = first <;> simp [hmem]

theorem leaseOf_expire :
    (book.expire now).leaseOf client = (book.leaseOf client).filter (!·.isExpired now) := by
  unfold expire
  rw [leaseOf_foldl_release]
  have hmem : client ∈ (book.leases.rows.filter fun lease => lease.isExpired now).map Lease.client ↔
      ∃ lease, book.leaseOf client = some lease ∧ lease.isExpired now = true := by
    rw [mem_map]
    constructor
    · rintro ⟨lease, hlease, rfl⟩
      obtain ⟨hrow, hexpi⟩ := mem_filter.mp hlease
      exact ⟨lease, Table.mem_rows_iff.mp hrow, hexpi⟩
    · rintro ⟨lease, hlease, hexpi⟩
      obtain ⟨hrow, hcli⟩ := Table.find?_eq_some_iff.mp hlease
      exact ⟨lease, mem_filter.mpr ⟨hrow, hexpi⟩, hcli⟩
  cases hlease : book.leaseOf client with
  | none =>
    rw [hlease] at hmem
    rw [if_neg]
    · rfl
    · rw [hmem]
      rintro ⟨_, hnone, -⟩
      cases hnone
  | some lease =>
    rw [hlease] at hmem
    cases hexpi : lease.isExpired now with
    | true =>
      rw [if_pos (hmem.mpr ⟨lease, rfl, hexpi⟩), Option.filter_some_neg (by simp [hexpi])]
    | false =>
      rw [if_neg, Option.filter_some_pos (by simp [hexpi])]
      rw [hmem]
      rintro ⟨_, hsame, hother⟩
      cases hsame
      rw [hexpi] at hother
      cases hother

end

theorem expire_induct {P : Book γ α → Prop}
    (hstep : ∀ book client, P book → P (release book client))
    (h : P book) (now : ℕ) : P (book.expire now) :=
  foldlRecOn _ _ h fun book h client _ => hstep book client h

/-! ## The tables stay inverse -/

namespace Inverse

variable (h : book.Inverse)
include h

theorem grant {lease : Lease γ α}
    (hcli : book.leaseOf lease.client = none) (haddr : book.holderOf lease.address = none) :
    (book.grant lease).Inverse := by
  intro client address
  rw [leaseOf_grant, holderOf_grant]
  by_cases hc : lease.client = client <;> by_cases ha : lease.address = address
  · simp [hc, ha]
  · rw [if_pos hc, if_neg ha]
    have hold := h client address
    rw [← hc, hcli] at hold
    simp only [Option.map_some, Option.some_inj, ha]
    rw [← hc, ← hold]
    simp
  · rw [if_neg hc]
    have hold := h client address
    rw [← ha, haddr] at hold
    rw [← ha, hold]
    simp [hc]
  · rw [if_neg hc, if_neg ha]
    exact h client address

theorem renew (client : γ) (expiresAt : ℕ) : (book.renew client expiresAt).Inverse := by
  intro other address
  rw [leaseOf_renew, holderOf_renew, ← h]
  split
  · rename_i heq
    rw [← heq, Option.map_map]
    rfl
  · rfl

theorem acknowledge (expiresAt : ℕ)
    (hfree : book.leaseOf client = none → ∀ other, book.holderOf address = some other →
      other = client) : (book.acknowledge client address expiresAt).Inverse := by
  unfold Book.acknowledge
  cases hlease : book.leaseOf client with
  | some _ => exact h.renew client expiresAt
  | none =>
    refine h.grant hlease ?_
    cases hholder : book.holderOf address with
    | none => rfl
    | some other =>
      obtain rfl := hfree hlease other hholder
      rw [← h, hlease] at hholder
      cases hholder

theorem release (client : γ) : (book.release client).Inverse := by
  intro other address
  rw [leaseOf_release, holderOf_release]
  by_cases ho : other = client
  · rw [if_pos ho]
    refine ⟨nofun, fun hholder => ?_⟩
    split at hholder
    · cases hholder
    · rename_i hne
      rw [← ho] at hne
      exact absurd ((h other address).mpr hholder) hne
  · rw [if_neg ho]
    split
    · rename_i hsame
      have hholder := (h client address).mp hsame
      refine ⟨fun hother => ?_, nofun⟩
      rw [h, hholder] at hother
      exact absurd (Option.some_inj.mp hother).symm ho
    · exact h other address

theorem expire (now : ℕ) : (book.expire now).Inverse :=
  expire_induct (fun _ client h => h.release client) h now

end Inverse

/-! ## Which addresses are leased -/

/-- The addresses that are leased are such ones. -/
def Within (book : Book γ α) (P : α → Prop) : Prop :=
  ∀ client lease, book.leaseOf client = some lease → P lease.address

variable {P : α → Prop}

theorem Within.acknowledge (h : book.Within P) (haddr : P address) (client : γ) (expiresAt : ℕ) :
    (book.acknowledge client address expiresAt).Within P := by
  intro other lease hlease
  rw [leaseOf_acknowledge] at hlease
  split at hlease
  · cases hlease
    cases hold : book.leaseOf client with
    | none => exact haddr
    | some old => exact h client old hold
  · exact h other lease hlease

theorem Within.release (h : book.Within P) (client : γ) : (book.release client).Within P := by
  intro other lease hlease
  rw [leaseOf_release] at hlease
  split at hlease
  · cases hlease
  · exact h other lease hlease

theorem Within.expire (h : book.Within P) (now : ℕ) : (book.expire now).Within P :=
  expire_induct (P := fun book => book.Within P) (fun _ client h => h.release client) h now

/-! ## What clients were told -/

namespace Backs

variable {now term : ℕ} {acks : List (Lease γ α)}

omit [DecidableEq α] in
theorem nil (book : Book γ α) (now term : ℕ) : book.Backs now term [] where
  bounded := nofun
  lease := nofun

section

variable (h : book.Backs now term acks)
include h

omit [DecidableEq α] in
theorem mono {later : ℕ} (hle : now ≤ later)
    {fewer : List (Lease γ α)} (hsub : fewer ⊆ acks) : book.Backs later term fewer where
  bounded := fun ack hack => (h.bounded ack (hsub hack)).trans (Nat.add_le_add_right hle _)
  lease := fun ack hack hlater => h.lease ack (hsub hack) (hle.trans hlater)

theorem acknowledge (hsame : ∀ lease, book.leaseOf client = some lease → lease.address = address) :
    (book.acknowledge client address (now + term)).Backs now term
      (acks ++ [⟨client, address, now + term⟩]) := by
  have haddr : ((book.leaseOf client).map Lease.address).getD address = address := by
    cases hlease : book.leaseOf client with
    | none => rfl
    | some lease => exact hsame lease hlease
  refine ⟨forall_mem_append.mpr ⟨h.bounded, forall_mem_singleton.mpr le_rfl⟩,
    fun ack hack hnow => ?_⟩
  · rw [leaseOf_acknowledge, haddr]
    rcases mem_append.mp hack with hold | hnew
    · obtain ⟨lease, hlease, hsameAddress, hle⟩ := h.lease ack hold hnow
      by_cases hcli : client = ack.client
      · rw [if_pos hcli]
        rw [← hcli] at hlease
        exact ⟨_, rfl, (hsame lease hlease).symm.trans hsameAddress, h.bounded ack hold⟩
      · rw [if_neg hcli]
        exact ⟨lease, hlease, hsameAddress, hle⟩
    · rw [mem_singleton.mp hnew, if_pos rfl]
      exact ⟨_, rfl, rfl, le_rfl⟩

theorem release (client : γ) :
    (book.release client).Backs now term (acks.filter fun ack => ack.client ≠ client) where
  bounded := fun ack hack => h.bounded ack (mem_filter.mp hack).1
  lease := fun ack hack hnow => by
    obtain ⟨hold, hne⟩ := mem_filter.mp hack
    rw [leaseOf_release, if_neg (of_decide_eq_true hne)]
    exact h.lease ack hold hnow

theorem expire : (book.expire now).Backs now term acks where
  bounded := h.bounded
  lease := fun ack hack hnow => by
    obtain ⟨lease, hlease, haddr, hle⟩ := h.lease ack hack hnow
    have hkept : now ≤ lease.expiresAt := hnow.trans hle
    rw [leaseOf_expire, hlease]
    exact ⟨lease, Option.filter_some_pos (by simpa [Lease.isExpired] using hkept), haddr, hle⟩

theorem exclusive (hinve : book.Inverse) {a b : Lease γ α}
    (ha : a ∈ acks) (hb : b ∈ acks) (haddr : a.address = b.address) (hanow : now ≤ a.expiresAt)
    (hbnow : now ≤ b.expiresAt) : a.client = b.client := by
  obtain ⟨_, hla, hla', -⟩ := h.lease a ha hanow
  obtain ⟨_, hlb, hlb', -⟩ := h.lease b hb hbnow
  have hha : book.holderOf a.address = some a.client :=
    (hinve ..).mp (by rw [hla, Option.map_some, hla'])
  have hhb : book.holderOf b.address = some b.client :=
    (hinve ..).mp (by rw [hlb, Option.map_some, hlb'])
  rw [haddr, hhb] at hha
  exact (Option.some_inj.mp hha).symm

end

end Backs

end Book

end Leasing
