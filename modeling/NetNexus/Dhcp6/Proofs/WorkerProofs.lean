import NetNexus.Dhcp6.Worker
import NetNexus.Dhcp6.Proofs.AddressProofs
import NetNexus.Lease.Proofs.BookProofs

/-!
# The pool of the DHCPv6 server

The search for an address finds the first free one of the pool. It leaves the pool at its end only
if there are addresses behind it. As long as no search finds the pool exhausted that goes up to the
last address of all, and clients ask for no other addresses than their own or free ones of the pool,
no address is assigned twice.
-/

namespace Dhcp6

open Leasing List Node Option

/-- An address from `low` up to `high`. -/
structure Between (low high buf : Buffer) : Prop where
  length : buf.length = 16
  le : ofBytes low ≤ ofBytes buf
  le_high : ofBytes buf ≤ ofBytes high

variable {event : Event} {now : ℕ} {after : Worker × Option Response}

namespace Worker

/-! ## The search for an address -/

def Sized (w : Worker) : Prop := w.poolStartBuf.length = 16 ∧ w.poolEndBuf.length = 16

def InPool (w : Worker) (buf : Buffer) : Prop := Between w.poolStartBuf w.poolEndBuf buf

def IsFree (w : Worker) (buf : Buffer) : Prop := w.book.holderOf (bufferToIpv6 buf) = none

/-- An address of the pool is free. -/
def HasFree (w : Worker) : Prop := ∃ buf, w.InPool buf ∧ w.IsFree buf

/-- There are addresses behind the pool. -/
def EndsEarly (w : Worker) : Prop := ofBytes w.poolEndBuf + 1 < 2 ^ 128

variable {buf : Buffer}

theorem ofBytes_address_lt (h : buf.length = 16) : ofBytes buf < 2 ^ 128 := by
  have hlt := ofBytes_lt buf
  rw [h] at hlt
  exact hlt

theorem ofBytes_next (h : buf.length = 16) (hlt : ofBytes buf + 1 < 2 ^ 128) :
    ofBytes (incrementIpv6 buf) = ofBytes buf + 1 := by
  rw [ofBytes_incrementIpv6, h]
  exact Nat.mod_eq_of_lt hlt

theorem compareBuffers_gt {a b : Buffer} (ha : a.length = 16) (hb : b.length = 16) :
    compareBuffers a b = .gt ↔ ofBytes b < ofBytes a := by
  rw [compareBuffers_eq a b (ha.trans hb.symm), Nat.compare_eq_gt]

variable {w : Worker}

theorem isNone_iff_isFree : (w.book.holderOf (bufferToIpv6 buf)).isNone = true ↔ w.IsFree buf :=
  isNone_iff_eq_none

variable {cur : Buffer}

theorem searchIp_of_free (hw : w.Sized) (rounds : ℕ) (hcur : cur.length = 16)
    (hrounds : ofBytes w.poolEndBuf < ofBytes cur + rounds) (hbuf : buf.length = 16)
    (hle : ofBytes cur ≤ ofBytes buf) (hend : ofBytes buf ≤ ofBytes w.poolEndBuf)
    (hfree : w.IsFree buf) : ∃ found, found.length = 16 ∧ ofBytes cur ≤ ofBytes found ∧
      ofBytes found ≤ ofBytes w.poolEndBuf ∧ w.IsFree found ∧
      w.searchIp rounds cur = some (some (bufferToIpv6 found)) := by
  induction rounds generalizing cur with
  | zero => omega
  | succ _ ih =>
    have hgt : compareBuffers cur w.poolEndBuf ≠ .gt := by
      rw [Ne, compareBuffers_gt hcur hw.2]
      omega
    unfold searchIp
    rw [if_neg hgt]
    by_cases hcurFree : w.IsFree cur
    · rw [if_pos (isNone_iff_isFree.mpr hcurFree)]
      exact ⟨cur, hcur, le_rfl, hle.trans hend, hcurFree, rfl⟩
    · rw [if_neg (mt isNone_iff_isFree.mp hcurFree)]
      have hne : ofBytes cur ≠ ofBytes buf := fun heq =>
        hcurFree (ofBytes_inj (hcur.trans hbuf.symm) heq ▸ hfree)
      have hlt := ofBytes_address_lt hbuf
      have hnext := ofBytes_next hcur (by omega)
      obtain ⟨found, hlen, _, hrest⟩ := ih
        ((length_incrementIpv6 cur).trans hcur) (by omega) (by omega)
      exact ⟨found, hlen, by omega, hrest⟩

/-- Without a free address the search ends behind the pool, if there are addresses there. -/
theorem searchIp_of_not_free (hw : w.Sized) (hearly : w.EndsEarly) (rounds : ℕ) (hpos : 0 < rounds)
    (hcur : cur.length = 16) (hrounds : ofBytes w.poolEndBuf + 1 < ofBytes cur + rounds)
    (hnone : ∀ buf, buf.length = 16 → ofBytes cur ≤ ofBytes buf →
      ofBytes buf ≤ ofBytes w.poolEndBuf → ¬ w.IsFree buf) : w.searchIp rounds cur = some none := by
  induction rounds generalizing cur with
  | zero => cases hpos
  | succ _ ih =>
    unfold searchIp
    by_cases hgt : compareBuffers cur w.poolEndBuf = .gt
    · rw [if_pos hgt]
    · rw [if_neg hgt]
      rw [compareBuffers_gt hcur hw.2, Nat.not_lt] at hgt
      have hearly' : ofBytes w.poolEndBuf + 1 < 2 ^ 128 := hearly
      have hnext := ofBytes_next hcur (by omega)
      rw [if_neg (mt isNone_iff_isFree.mp (hnone cur hcur (le_rfl) hgt))]
      refine ih (by omega) ((length_incrementIpv6 cur).trans hcur) (by omega)
        fun buf hlen hle hend => ?_
      exact hnone buf hlen (by omega) hend

/-- At the last address of all the search starts again from the first one. -/
theorem searchIp_ne_some_none (hw : w.Sized) (hlate : ¬ w.EndsEarly) (rounds : ℕ)
    (hcur : cur.length = 16) : w.searchIp rounds cur ≠ some none := by
  induction rounds generalizing cur with
  | zero => exact nofun
  | succ _ ih =>
    have hlt := ofBytes_address_lt hcur
    unfold EndsEarly at hlate
    unfold searchIp
    rw [if_neg (by rw [compareBuffers_gt hcur hw.2]; omega)]
    split
    · exact nofun
    · exact ih ((length_incrementIpv6 cur).trans hcur)

/-- What is asked of the search for a client without a lease: it ends, with a free address of the
pool whenever there is one, and with nothing otherwise. -/
structure Allocates (w : Worker) (clientDuid : List Char) : Prop where
  found : w.HasFree → ∃ buf, w.InPool buf ∧ w.IsFree buf ∧
    w.allocateIp clientDuid = some (some (bufferToIpv6 buf))
  exhausted : ¬ w.HasFree → w.allocateIp clientDuid = some none

variable {clientDuid : List Char}

theorem allocateIp_of_leaseOf_eq_none (h : w.book.leaseOf clientDuid = none) :
    w.allocateIp clientDuid = w.searchIp (2 ^ 128) w.poolStartBuf := by
  unfold allocateIp
  rw [h]

theorem allocateIp_of_hasFree (hw : w.Sized) (hlease : w.book.leaseOf clientDuid = none)
    (h : w.HasFree) : ∃ buf, w.InPool buf ∧ w.IsFree buf ∧
      w.allocateIp clientDuid = some (some (bufferToIpv6 buf)) := by
  obtain ⟨_, hpool, hfree⟩ := h
  have hend := ofBytes_address_lt hw.2
  obtain ⟨found, hlen, hle, hle_end, hfound, hsearch⟩ := searchIp_of_free hw (2 ^ 128) hw.1
    (by omega) hpool.length hpool.le hpool.le_high hfree
  exact ⟨found, ⟨hlen, hle, hle_end⟩, hfound, (allocateIp_of_leaseOf_eq_none hlease).trans hsearch⟩

theorem allocates_iff (hw : w.Sized) (hlease : w.book.leaseOf clientDuid = none) :
    w.Allocates clientDuid ↔ w.EndsEarly ∨ w.HasFree := by
  refine ⟨fun h => ?_, fun h => ⟨allocateIp_of_hasFree hw hlease, fun hnone => ?_⟩⟩
  · by_contra hneit
    rw [not_or] at hneit
    have hexha := h.exhausted hneit.2
    rw [allocateIp_of_leaseOf_eq_none hlease] at hexha
    exact searchIp_ne_some_none hw hneit.1 _ hw.1 hexha
  · have hearly : w.EndsEarly := h.resolve_right hnone
    have hearly' : ofBytes w.poolEndBuf + 1 < 2 ^ 128 := hearly
    rw [allocateIp_of_leaseOf_eq_none hlease]
    refine searchIp_of_not_free hw hearly _ (by decide) hw.1 (by omega) ?_
    exact fun buf hlen hle hend hfree => hnone ⟨buf, ⟨hlen, hle, hend⟩, hfree⟩

/-! ## What a step does -/

/-- The text is that of an address of the pool. -/
def IsPooled (w : Worker) (ip : List Char) : Prop := ∃ buf, w.InPool buf ∧ ip = bufferToIpv6 buf

/-- The packet is one to which this server answers with an address. -/
structure Asks (w : Worker) (packet : Packet) (clientDuid : List Char) : Prop where
  client : packet.clientDuid = some clientDuid
  identified : packet.iaid ≠ none
  forUs : packet.msgType = MsgType.solicit.code ∨
    isRequest packet = true ∧ w.isForOther packet = false

/-- A packet that does no harm. A search starts only if there are addresses behind the pool or a
free one in it, and an address that is asked for is one of the pool, the one that the client has or
else a free one. -/
structure Accepts (w : Worker) (packet : Packet) (clientDuid : List Char) : Prop where
  search : w.book.leaseOf clientDuid = none →
    (packet.msgType = MsgType.solicit.code ∨ packet.requestedIp = none) → w.EndsEarly ∨ w.HasFree
  pooled : isRequest packet = true → ∀ ip, packet.requestedIp = some ip → w.IsPooled ip
  own : isRequest packet = true → ∀ ip, packet.requestedIp = some ip →
    ∀ lease, w.book.leaseOf clientDuid = some lease → lease.address = ip
  free : isRequest packet = true → ∀ ip, packet.requestedIp = some ip →
    w.book.leaseOf clientDuid = none → w.book.holderOf ip = none

/-- A message that does no harm. -/
def AcceptsMessage (w : Worker) (msg : Buffer) : Prop :=
  ∀ packet clientDuid, parseDhcp6Packet msg = some packet → w.Asks packet clientDuid →
    w.Accepts packet clientDuid

/-- Only a message can do harm. -/
def AcceptsEvent (w : Worker) (event : Event) : Prop :=
  ∀ msg, event = .message msg → w.AcceptsMessage msg

/-- The tables are inverse and the leased addresses are those of the pool. -/
structure Inv (w : Worker) : Prop where
  sized : w.Sized
  inverse : w.book.Inverse
  pooled : ∀ clientDuid lease, w.book.leaseOf clientDuid = some lease → w.IsPooled lease.address

/-- What a harmless step does: nothing to the leases, assign an address, or let leases end. -/
inductive Effect (w : Worker) (now : ℕ) (event : Event) (after : Worker × Option Response) : Prop
  | idle (hworker : after.1 = w)
    (hresp : ∀ response ip, after.2 = some response → response.body = .address ip →
      response.msgType = .advertise ∧ w.IsPooled ip)
    (hreleased : event.released = none)
  | acknowledged {txId : Buffer} {clientDuid iaid ip : List Char}
    (hown : ∀ lease, w.book.leaseOf clientDuid = some lease → lease.address = ip)
    (hfree : w.book.leaseOf clientDuid = none → w.book.holderOf ip = none)
    (hpooled : w.IsPooled ip)
    (hafter : after = ({ w with book := w.book.acknowledge clientDuid ip (now + w.leaseMillis) },
      some ⟨.reply, txId, clientDuid, iaid, .address ip⟩))
    (hreleased : event.released = none)
  | released {clientDuid : List Char} (hworker : after.1 = w.releaseLease clientDuid)
    (hresp : ∀ response ip, after.2 = some response → response.body ≠ .address ip)
    (hreleased : event.released = some clientDuid)
  | expired (hafter : after = (w.checkExpiredLeases now, none)) (hreleased : event.released = none)

theorem Effect.quiet (h : event.released = none) : w.Effect now event (w, none) :=
  .idle rfl nofun h

theorem Inv.allocateIp (h : w.Inv)
    (hsearch : w.book.leaseOf clientDuid = none → w.EndsEarly ∨ w.HasFree) :
    ∃ found, w.allocateIp clientDuid = some found ∧ ∀ ip, found = some ip →
      w.IsPooled ip ∧
        (∀ lease, w.book.leaseOf clientDuid = some lease → lease.address = ip) ∧
        (w.book.leaseOf clientDuid = none → w.book.holderOf ip = none) := by
  cases hlease : w.book.leaseOf clientDuid with
  | some lease =>
    refine ⟨some lease.address, by unfold Worker.allocateIp; rw [hlease], ?_⟩
    rintro - ⟨⟩
    refine ⟨h.pooled clientDuid lease hlease, ?_, nofun⟩
    rintro - ⟨⟩
    rfl
  | none =>
    by_cases hfree : w.HasFree
    · obtain ⟨buf, hpool, hbuf, hfound⟩ := allocateIp_of_hasFree h.sized hlease hfree
      refine ⟨_, hfound, ?_⟩
      rintro - ⟨⟩
      exact ⟨⟨buf, hpool, rfl⟩, nofun, fun _ => hbuf⟩
    · have hexha := ((allocates_iff h.sized hlease).mpr (hsearch hlease)).exhausted hfree
      exact ⟨none, hexha, nofun⟩

variable {msg : Buffer} {packet : Packet}

theorem isRequest_ne (h : isRequest packet = true) :
    packet.msgType ≠ MsgType.solicit.code ∧ packet.msgType ≠ MsgType.release.code := by
  have hcodes : packet.msgType = 3 ∨ packet.msgType = 5 ∨ packet.msgType = 6 ∨
      packet.msgType = 4 := by
    simp only [isRequest, any_cons, any_nil, Bool.or_false, Bool.or_eq_true] at h
    exact h.imp of_decide_eq_true
      (.imp of_decide_eq_true (.imp of_decide_eq_true of_decide_eq_true))
  rcases hcodes with hcode | hcode | hcode | hcode <;> rw [hcode] <;> decide

section

variable (hparse : parseDhcp6Packet msg = some packet)

include hparse

theorem released_of_ne (h : packet.msgType ≠ MsgType.release.code) :
    (Event.message msg).released = none := by
  show (parseDhcp6Packet msg).bind _ = _
  rw [hparse, bind_some, if_neg h]

theorem handleSolicit_effect (h : w.Inv) (htype : packet.msgType = MsgType.solicit.code)
    (hacc : w.AcceptsMessage msg) (now : ℕ) :
    ∃ after, w.handleSolicit packet = some after ∧ w.Effect now (.message msg) after := by
  have hrel := released_of_ne hparse (by rw [htype]; decide)
  unfold handleSolicit
  split
  · rename_i clientDuid iaid hcli hiaid
    have hasks : w.Asks packet clientDuid :=
      ⟨hcli, by rw [hiaid]; exact some_ne_none iaid, .inl htype⟩
    obtain ⟨_, hfound, hip⟩ := h.allocateIp fun hlease =>
      (hacc packet clientDuid hparse hasks).search hlease (.inl htype)
    refine ⟨_, by rw [hfound]; rfl, .idle rfl ?_ hrel⟩
    intro response ip hresp hbody
    obtain ⟨assigned, hasgn, rfl⟩ := Option.map_eq_some_iff.mp hresp
    obtain rfl : assigned = ip := by cases hbody; rfl
    exact ⟨rfl, (hip assigned hasgn).1⟩
  · exact ⟨_, rfl, .quiet hrel⟩

theorem handleRequest_effect (h : w.Inv) (hrequest : isRequest packet = true)
    (hacc : w.AcceptsMessage msg) (now : ℕ) :
    ∃ after, w.handleRequest now packet = some after ∧ w.Effect now (.message msg) after := by
  have hrel := released_of_ne hparse (isRequest_ne hrequest).2
  unfold handleRequest
  split
  · rename_i clientDuid iaid hcli hiaid
    split
    · exact ⟨_, rfl, .quiet hrel⟩
    · rename_i hother
      have hasks : w.Asks packet clientDuid :=
        ⟨hcli, by rw [hiaid]; exact some_ne_none iaid,
          .inr ⟨hrequest, Bool.eq_false_iff.mpr hother⟩⟩
      have hok := hacc packet clientDuid hparse hasks
      cases hreq : packet.requestedIp with
      | some ip =>
        exact ⟨_, rfl, .acknowledged (hok.own hrequest ip hreq)
          (hok.free hrequest ip hreq) (hok.pooled hrequest ip hreq) rfl hrel⟩
      | none =>
        obtain ⟨found, hfound, hip⟩ := h.allocateIp fun hlease =>
          hok.search hlease (.inr hreq)
        rw [hfound]
        cases found with
        | none =>
          refine ⟨_, rfl, .idle rfl ?_ hrel⟩
          intro response ip hresp hbody
          cases hresp
          cases hbody
        | some ip =>
          obtain ⟨hpool, hown, hfree⟩ := hip ip rfl
          exact ⟨_, rfl, .acknowledged hown hfree hpool rfl hrel⟩
  · exact ⟨_, rfl, .quiet hrel⟩

theorem handleRelease_effect (htype : packet.msgType = MsgType.release.code) (now : ℕ) :
    w.Effect now (.message msg) (w.handleRelease packet) := by
  have hrel : (Event.message msg).released = packet.clientDuid := by
    show (parseDhcp6Packet msg).bind _ = _
    rw [hparse, bind_some, if_pos htype]
  unfold handleRelease
  split
  · rename_i hcli
    refine .released rfl ?_ (hrel.trans hcli)
    intro response ip hresp hbody
    obtain ⟨_, -, rfl⟩ := Option.map_eq_some_iff.mp hresp
    cases hbody
  · rename_i hcli
    exact .quiet (hrel.trans hcli)

end

/-- A harmless step ends, and does what it should. -/
theorem Inv.effect (h : w.Inv) (hacc : w.AcceptsEvent event) (now : ℕ) :
    ∃ after, w.step now event = some after ∧ w.Effect now event after := by
  cases event with
  | message msg =>
    have hmsg := hacc msg rfl
    show ∃ after, w.onMessage now msg = some after ∧ _
    unfold onMessage
    cases hparse : parseDhcp6Packet msg with
    | none =>
      refine ⟨_, rfl, .quiet ?_⟩
      show (parseDhcp6Packet msg).bind _ = _
      rw [hparse, bind_none]
    | some _ =>
      dsimp only
      split
      · rename_i htype
        exact handleSolicit_effect hparse h htype hmsg now
      · split
        · rename_i hreq
          exact handleRequest_effect hparse h hreq hmsg now
        · split
          · rename_i htype
            exact ⟨_, rfl, handleRelease_effect hparse htype now⟩
          · rename_i htype
            exact ⟨_, rfl, .quiet (released_of_ne hparse htype)⟩
  | releaseLease _ =>
    exact ⟨_, rfl, .released rfl nofun rfl⟩
  | checkExpiredLeases => exact ⟨_, rfl, .expired rfl rfl⟩
  | wait _ => exact ⟨_, rfl, .quiet rfl⟩

/-- The server with other leases. -/
def withBook (w : Worker) (book : Book (List Char) (List Char)) : Worker := { w with book := book }

theorem Inv.of_effect (h : w.Inv) (heff : w.Effect now event after) :
    after.1.Inv ∧ ∃ book, after.1 = w.withBook book := by
  cases heff with
  | idle hwk => rw [hwk]; exact ⟨h, w.book, rfl⟩
  | @acknowledged txId clientDuid iaid ip hown hfree hpool hafter =>
    rw [hafter]
    refine ⟨⟨h.sized, h.inverse.acknowledge _ fun hnone other hholder => ?_,
      Book.Within.acknowledge h.pooled hpool _ _⟩, _, rfl⟩
    rw [hfree hnone] at hholder
    cases hholder
  | @released clientDuid hwk =>
    rw [hwk]
    exact ⟨⟨h.sized, h.inverse.release clientDuid, Book.Within.release h.pooled clientDuid⟩, _, rfl⟩
  | expired hafter =>
    rw [hafter]
    exact ⟨⟨h.sized, h.inverse.expire now, Book.Within.expire h.pooled now⟩, _, rfl⟩

end Worker

/-! ## Runs -/

namespace Run

def start (worker : Worker) (now : ℕ) : Run := ⟨worker, now, []⟩

/-- Every message of the run is accepted. -/
def Keeps : Run → List Event → Prop
  | _, [] => True
  | run, event :: events => run.worker.AcceptsEvent event ∧
    ∀ next, run.step event = some next → Keeps next events

/-- The leases stand behind what the clients were told and has not ended. -/
structure Inv (run : Run) : Prop where
  worker : run.worker.Inv
  backed : run.worker.book.Backs run.now run.worker.leaseMillis run.acks

theorem ack?_eq_none {response : Option Response} {expiresAt : ℕ}
    (h : ∀ r ip, response = some r → r.body = .address ip → r.msgType = .advertise) :
    (response.bind fun r => r.ack? expiresAt).toList = [] := by
  cases response with
  | none => rfl
  | some r =>
    rw [bind_some]
    unfold Response.ack?
    split
    · rename_i ip htype hbody
      rw [h r ip rfl hbody] at htype
      cases htype
    · rfl

theorem Inv.step {run : Run} (h : run.Inv) (hacc : run.worker.AcceptsEvent event) :
    ∃ next, run.step event = some next ∧ next.Inv ∧
      ∃ book, next.worker = run.worker.withBook book := by
  obtain ⟨after, hstep, heff⟩ := h.worker.effect hacc run.now
  obtain ⟨hwk, book, hbook⟩ := h.worker.of_effect heff
  have hmillis : after.1.leaseMillis = run.worker.leaseMillis := by rw [hbook]; rfl
  refine ⟨_, by unfold Run.step; rw [hstep]; rfl, ⟨hwk, ?_⟩, book, hbook⟩
  have hnow : run.now ≤ run.now + event.elapsed := Nat.le_add_right ..
  dsimp only
  rw [hmillis]
  refine Book.Backs.mono ?_ hnow (List.Subset.refl _)
  cases heff with
  | idle hsame hresp =>
    rw [hsame, ack?_eq_none fun r ip hr hbody => (hresp r ip hr hbody).1, append_nil]
    exact h.backed.mono le_rfl (filter_subset_self _)
  | @acknowledged txId clientDuid iaid ip hown hfree hpool hafter hrel =>
    have hacks := h.backed.acknowledge hown
    rw [hafter, hrel]
    simpa [Response.ack?] using hacks
  | @released clientDuid hafter hresp hrel =>
    rw [hafter, hrel, ack?_eq_none fun r ip hr hbody => absurd hbody (hresp r ip hr)]
    simpa [Worker.releaseLease] using h.backed.release clientDuid
  | expired hafter =>
    rw [hafter, ack?_eq_none fun r ip hr => (by cases hr), append_nil]
    exact h.backed.expire.mono le_rfl (filter_subset_self _)

theorem Inv.steps {run : Run} (h : run.Inv) {events : List Event} (hkeeps : run.Keeps events) :
    ∃ last, run.steps events = some last ∧ last.Inv ∧
      ∃ book, last.worker = run.worker.withBook book := by
  induction events generalizing run with
  | nil => exact ⟨run, rfl, h, run.worker.book, rfl⟩
  | cons event _ ih =>
    obtain ⟨next, hnext, hinv, _, hnextBook⟩ := h.step hkeeps.1
    obtain ⟨last, hlast, hinv', book, hbook⟩ := ih hinv (hkeeps.2 next hnext)
    refine ⟨last, ?_, hinv', book, by rw [hbook, hnextBook]; rfl⟩
    show (run.step event).bind _ = _
    rw [hnext]
    exact hlast

theorem inv_start {config : Config} {serverDuid : Buffer} {worker : Worker}
    (h : Worker.startDhcp6 config serverDuid = some worker) (now : ℕ) : (start worker now).Inv := by
  obtain ⟨_, hstart, hrest⟩ := Option.bind_eq_some_iff.mp h
  obtain ⟨_, hstop, hwk⟩ := Option.bind_eq_some_iff.mp hrest
  cases hwk
  exact ⟨⟨⟨length_ipv6ToBuffer hstart, length_ipv6ToBuffer hstop⟩, Book.inverse_empty,
    nofun⟩, Book.Backs.nil ..⟩

end Run

/-! ## Responses -/

theorem buildIaAddr_infix {response : Response} {buf : Buffer} (hlen : buf.length = 16)
    (hbody : response.body = .address (bufferToIpv6 buf)) {config : Config}
    {serverDuid bytes : Buffer} (h : response.encode config serverDuid = some bytes) :
    buildIaAddr buf config.preferredLifetime config.validLifetime <:+: bytes := by
  unfold Response.encode at h
  simp only [hbody, ipv6ToBuffer_bufferToIpv6 hlen, bind_eq_bind, bind_some] at h
  obtain ⟨_, -, hbytes⟩ := Option.bind_eq_some_iff.mp h
  cases hbytes
  have hinner : buildIaAddr buf config.preferredLifetime config.validLifetime <:+:
      buildIaNa (hexDecode response.iaid) (config.validLifetime.toNat / 2)
        (config.validLifetime.toNat * 7 / 8)
        (buildIaAddr buf config.preferredLifetime config.validLifetime) :=
          (suffix_append_of_suffix (suffix_append ..)).isInfix
  refine hinner.trans ((infix_of_mem_flatten ?_).trans
    (suffix_append ..).isInfix)
  simp

namespace Worker

theorem Effect.isPooled {w : Worker} (h : w.Effect now event after) {response : Response}
    {ip : List Char} (hresp : after.2 = some response) (hbody : response.body = .address ip) :
    w.IsPooled ip := by
  cases h with
  | idle _ hall => exact (hall response ip hresp hbody).2
  | acknowledged _ _ hpool hafter =>
    rw [hafter] at hresp
    cases hresp
    cases hbody
    exact hpool
  | released _ hall => exact absurd hbody (hall response ip hresp)
  | expired hafter =>
    rw [hafter] at hresp
    cases hresp

end Worker

namespace Run

/-- For a client without a lease the search ends as it should exactly if there are addresses behind
the pool or a free one in it. In every run of harmless steps all steps end, the tables are inverse,
every address that is advertised or assigned next is one of the pool, and no two clients hold
unexpired assignments of one address. -/
theorem address_unique {config : Config} {serverDuid : Buffer} {worker : Worker}
    (hstart : Worker.startDhcp6 config serverDuid = some worker) :
    (∀ book clientDuid, book.leaseOf clientDuid = none →
      ((worker.withBook book).Allocates clientDuid ↔
        (worker.withBook book).EndsEarly ∨ (worker.withBook book).HasFree)) ∧
    ∀ now events, (start worker now).Keeps events →
      ∃ run, (start worker now).steps events = some run ∧ run.worker.book.Inverse ∧
        (∀ event, run.worker.AcceptsEvent event →
          ∃ after, run.worker.step run.now event = some after ∧
            ∀ response ip, after.2 = some response → response.body = .address ip →
              ∃ buf, worker.InPool buf ∧ ip = bufferToIpv6 buf ∧
                ∀ bytes, response.encode config serverDuid = some bytes →
                  buildIaAddr buf config.preferredLifetime config.validLifetime <:+: bytes) ∧
        ∀ a ∈ run.acks, ∀ b ∈ run.acks, a.address = b.address → run.now ≤ a.expiresAt →
          run.now ≤ b.expiresAt → a.client = b.client := by
  refine ⟨fun book clientDuid hlease => ?_, fun now events hkeeps => ?_⟩
  · exact Worker.allocates_iff (inv_start hstart 0).worker.sized hlease
  · obtain ⟨run, hrun, hinv, _, hbook⟩ := (inv_start hstart now).steps hkeeps
    refine ⟨run, hrun, hinv.worker.inverse, fun event hacc => ?_, fun a ha b hb haddr =>
      hinv.backed.exclusive hinv.worker.inverse ha hb haddr⟩
    obtain ⟨after, hstep, heff⟩ := hinv.worker.effect hacc run.now
    refine ⟨after, hstep, fun response ip hresp hbody => ?_⟩
    obtain ⟨buf, hpool, rfl⟩ := heff.isPooled hresp hbody
    rw [hbook] at hpool
    exact ⟨buf, hpool, rfl, fun bytes => buildIaAddr_infix hpool.length hbody⟩

/-! ## Clients that ask for what is not theirs -/

/-- A message of a client with the identifier `00 duid`. -/
def sampleMessage (msgType : MsgType) (duid : UInt8) (iaAddr : Buffer) : Buffer :=
  buildDhcp6Response msgType [0, 0, 1]
    [buildOption 1 [0, duid], buildIaNa [0, 0, 0, 1] 0 0 iaAddr]

def sampleAddress (octet : UInt8) : Buffer :=
  [0x20, 0x01, 0x0d, 0xb8] ++ List.replicate 10 0 ++ [1, octet]

def sampleRequest (duid octet : UInt8) : Event :=
  .message (sampleMessage .request duid (buildIaAddr (sampleAddress octet) 0 0))

def sampleConfig (poolStart poolEnd : String) : Config where
  poolStart := poolStart.toList
  poolEnd := poolEnd.toList
  preferredLifetime := 3600
  validLifetime := 7200
  dns1 := none
  dns2 := none

def sampleWorker (poolStart poolEnd : String) : Option Worker :=
  Worker.startDhcp6 (sampleConfig poolStart poolEnd) [0, 3, 0, 1, 2, 0, 0, 0, 0, 1]

/-- What the clients were told after messages to a server that has just started. -/
def sampleAcks (poolStart poolEnd : String) (events : List Event) :
    Option (List (String × String)) := do
  let worker ← sampleWorker poolStart poolEnd
  let run ← (start worker 0).steps events
  return run.acks.map fun ack => (String.ofList ack.client, String.ofList ack.address)

/-- Two clients get the address that both ask for, a client gets an address outside of the pool, and
so does the second client of a pool that consists of the last address. -/
theorem address_assigned_twice :
    sampleAcks "2001:db8::100" "2001:db8::1ff" [sampleRequest 1 5, sampleRequest 2 5] =
        some [("0001", "2001:db8::105"), ("0002", "2001:db8::105")] ∧
      sampleAcks "2001:db8::100" "2001:db8::103" [sampleRequest 1 5] =
        some [("0001", "2001:db8::105")] ∧
      sampleAcks "ffff:ffff:ffff:ffff:ffff:ffff:ffff:ffff" "ffff:ffff:ffff:ffff:ffff:ffff:ffff:ffff"
          [.message (sampleMessage .request 1 []), .message (sampleMessage .request 2 [])] =
        some [("0001", "ffff:ffff:ffff:ffff:ffff:ffff:ffff:ffff"), ("0002", "::")] := by
  decide +kernel

/-! ## Clients that ask for free addresses -/

def sampleServer : Worker where
  config := sampleConfig "2001:db8::100" "2001:db8::1ff"
  serverDuid := [0, 3, 0, 1, 2, 0, 0, 0, 0, 1]
  poolStartBuf := sampleAddress 0
  poolEndBuf := sampleAddress 255
  book := .empty

theorem startDhcp6_sampleServer : Worker.startDhcp6 (sampleConfig "2001:db8::100" "2001:db8::1ff")
    [0, 3, 0, 1, 2, 0, 0, 0, 0, 1] = some sampleServer := rfl

/-- A client without a lease asks for a free address of the pool. -/
theorem acceptsEvent_request {w : Worker} {msg buf : Buffer} {packet : Packet}
    {clientDuid : List Char} (hparse : parseDhcp6Packet msg = some packet)
    (hcli : packet.clientDuid = some clientDuid) (htype : packet.msgType = MsgType.request.code)
    (hreq : packet.requestedIp = some (bufferToIpv6 buf)) (hpool : w.InPool buf)
    (hlease : w.book.leaseOf clientDuid = none) (hfree : w.IsFree buf) :
    w.AcceptsEvent (.message msg) := by
  rintro _ ⟨⟩ _ _ hother hasks
  cases hparse.symm.trans hother
  cases hcli.symm.trans hasks.client
  constructor
  · rintro - (hsoli | hnone)
    · rw [htype] at hsoli
      cases hsoli
    · rw [hreq] at hnone
      cases hnone
  · rintro - _ hip
    rw [hreq] at hip
    exact ⟨buf, hpool, (Option.some_inj.mp hip).symm⟩
  · rintro - - - _ hsome
    rw [hlease] at hsome
    cases hsome
  · rintro - _ hip -
    rw [hreq] at hip
    exact Option.some_inj.mp hip ▸ hfree

theorem address_unique_requests :
    let events := [sampleRequest 1 5, sampleRequest 2 6]
    (start sampleServer 0).Keeps events ∧ ∃ run, (start sampleServer 0).steps events = some run ∧
      run.acks.map Lease.client = ["0001".toList, "0002".toList] ∧
      ∀ a ∈ run.acks, ∀ b ∈ run.acks, a.address = b.address → run.now ≤ a.expiresAt →
        run.now ≤ b.expiresAt → a.client = b.client := by
  intro events
  have hpkt (duid octet) (hduid : duid = 1 ∨ duid = 2) (hoctet : octet = 5 ∨ octet = 6) :
      parseDhcp6Packet (sampleMessage .request duid (buildIaAddr (sampleAddress octet) 0 0)) =
        some ⟨3, [0, 0, 1], some (hexEncode [0, duid]), none, some "00000001".toList,
          some (bufferToIpv6 (sampleAddress octet))⟩ := by
    rcases hduid with rfl | rfl <;> rcases hoctet with rfl | rfl <;> decide +kernel
  have hkeeps : (start sampleServer 0).Keeps events := by
    refine ⟨?_, fun next hnext => ⟨?_, fun _ _ => trivial⟩⟩
    · refine acceptsEvent_request (hpkt 1 5 (.inl rfl) (.inl rfl)) rfl rfl rfl ?_ rfl ?_
      · exact ⟨rfl, by decide +kernel, by decide +kernel⟩
      · show _ = _
        decide +kernel
    · have hstate : ((start sampleServer 0).step (sampleRequest 1 5)).all (fun next =>
          decide (next.worker.poolStartBuf = sampleAddress 0 ∧
            next.worker.poolEndBuf = sampleAddress 255 ∧
            next.worker.book.leaseOf (hexEncode [0, 2]) = none ∧
            next.worker.book.holderOf (bufferToIpv6 (sampleAddress 6)) = none)) = true := by
        decide +kernel
      rw [hnext, all_some, decide_eq_true_eq] at hstate
      obtain ⟨hlow, hhigh, hlease, hfree⟩ := hstate
      refine acceptsEvent_request (hpkt 2 6 (.inr rfl) (.inr rfl)) rfl rfl rfl ?_ hlease hfree
      unfold Worker.InPool
      rw [hlow, hhigh]
      exact ⟨rfl, by decide +kernel, by decide +kernel⟩
  obtain ⟨run, hrun, -, -, huniq⟩ :=
    (address_unique startDhcp6_sampleServer).2 0 events hkeeps
  refine ⟨hkeeps, run, hrun, ?_, huniq⟩
  have hclie : ((start sampleServer 0).steps events).map (fun run => run.acks.map Lease.client) =
      some ["0001".toList, "0002".toList] := by decide +kernel
  rw [hrun] at hclie
  exact Option.some_inj.mp hclie

end Run

end Dhcp6
