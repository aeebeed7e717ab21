import NetNexus.Dhcp.Worker
import NetNexus.Dhcp.Proofs.PacketProofs
import NetNexus.Lease.Proofs.BookProofs

/-!
# No address is leased twice

The tables stay inverse and inside the pool over every run. Acknowledgements are exclusive as long
as no client that has a lease asks for another address.
-/

namespace Dhcp

open Leasing Node Option

namespace Worker

def IsPooled (config : Config) (ip : String) : Prop :=
  ∃ num, config.poolStart ≤ num ∧ num ≤ config.poolEnd ∧ ip = numToIp num

/-- A message by which a client that has a lease asks this server for another address, which is
free. -/
def asksOther (w : Worker) (msg : Buffer) : Bool :=
  (parseDhcpPacket msg).any fun packet =>
    packet.op = 1 && packet.msgType = some MsgType.request.code && !w.isForOther packet &&
      (requestedIp packet).any fun ip => w.inPool ip && !w.isTaken ip packet.macAddr &&
        (w.book.leaseOf packet.macAddr).any (·.address ≠ ip)

/-! ## What a request does -/

/-- The request is acknowledged. -/
structure Acknowledges (w : Worker) (packet : Packet) (ip : String) : Prop where
  forUs : w.isForOther packet = false
  requested : requestedIp packet = some ip
  pooled : w.inPool ip = true
  free : w.isTaken ip packet.macAddr = false

variable {w : Worker} {packet : Packet} {ip : String}

theorem Acknowledges.handleRequest (h : w.Acknowledges packet ip) (now : ℕ) :
    w.handleRequest now packet =
      ({ w with book :=
        w.book.acknowledge packet.macAddr ip (now + w.leaseMillis) }.deleteOffer packet,
        some ⟨packet, .ack, ip⟩) := by
  unfold Worker.handleRequest
  rw [if_neg (by rw [h.forUs]; exact Bool.false_ne_true), h.requested]
  dsimp only
  rw [if_neg (by rw [h.pooled]; decide), if_neg (by rw [h.free]; exact Bool.false_ne_true)]

theorem handleRequest_of_not (h : ∀ ip, ¬ w.Acknowledges packet ip) (now : ℕ) :
    (w.handleRequest now packet).1.book = w.book ∧
      (w.handleRequest now packet).1.config = w.config ∧
      ∀ response, (w.handleRequest now packet).2 = some response → response.msgType = .nak := by
  have hnak : ∀ response, some (nak packet) = some response → response.msgType = .nak := by
    rintro - ⟨⟩
    rfl
  unfold Worker.handleRequest
  split
  · exact ⟨rfl, rfl, nofun⟩
  · rename_i hother
    split
    · exact ⟨rfl, rfl, hnak⟩
    · rename_i ip hip
      split
      · exact ⟨rfl, rfl, hnak⟩
      · rename_i hpool
        split
        · exact ⟨rfl, rfl, hnak⟩
        · rename_i hfree
          simp only [Bool.not_eq_true] at hother hfree
          exact absurd ⟨hother, hip, by simpa using hpool, hfree⟩ (h ip)

/-! ## What a step does -/

/-- All that a step can do: nothing to the leases, acknowledge a request, or let leases end. -/
inductive Effect (w : Worker) (now : ℕ) (event : Event) (after : Worker × Option Response) : Prop
  | idle (hbook : after.1.book = w.book) (hconf : after.1.config = w.config)
    (hresp : ∀ response, after.2 = some response → response.msgType ≠ .ack ∧
      (response.msgType ≠ .nak →
        w.allocateIp response.packet.macAddr = some response.assignedIp))
    (hreleased : event.released = none)
    (hother : ∀ msg, event = .message msg → w.asksOther msg = false)
  | acknowledged {msg : Buffer} {packet : Packet} {ip : String} (hevent : event = .message msg)
    (hparse : parseDhcpPacket msg = some packet) (hack : w.Acknowledges packet ip)
    (hother : w.asksOther msg = (w.book.leaseOf packet.macAddr).any (·.address ≠ ip))
    (hbook : after.1.book = w.book.acknowledge packet.macAddr ip (now + w.leaseMillis))
    (hconf : after.1.config = w.config) (hresp : after.2 = some ⟨packet, .ack, ip⟩)
    (hreleased : event.released = none)
  | released {macAddr : List Char} (hafter : after = (w.releaseLease macAddr, none))
    (hreleased : event.released = some macAddr)
    (hother : ∀ msg, event = .message msg → w.asksOther msg = false)
  | expired (hevent : event = .checkExpiredLeases)
    (hafter : after = (w.checkExpiredLeases now, none))

variable {msg : Buffer}

section

variable (hparse : parseDhcpPacket msg = some packet)
include hparse

theorem asksOther_of_not_request
    (h : ¬ (packet.op = 1 ∧ packet.msgType = some MsgType.request.code)) :
    w.asksOther msg = false := by
  unfold asksOther
  rw [hparse, any_some]
  have hand : (decide (packet.op = 1) && decide (packet.msgType = some MsgType.request.code)) =
      false := by
    simpa using h
  rw [hand, Bool.false_and, Bool.false_and]

theorem asksOther_eq (hop : packet.op = 1)
    (htype : packet.msgType = some MsgType.request.code) (hack : w.Acknowledges packet ip) :
    w.asksOther msg = (w.book.leaseOf packet.macAddr).any (·.address ≠ ip) := by
  unfold asksOther
  rw [hparse, any_some, hack.requested, any_some, hack.forUs, hack.pooled, hack.free]
  simp [hop, htype]

theorem asksOther_eq_false (h : ∀ ip, ¬ w.Acknowledges packet ip) : w.asksOther msg = false := by
  unfold asksOther
  rw [hparse, any_some, Bool.eq_false_iff]
  intro hall
  simp only [Bool.and_eq_true, any_eq_true_iff_get, Bool.not_eq_true'] at hall
  obtain ⟨⟨-, hfor⟩, hsome, ⟨hpool, hfree⟩, -⟩ := hall
  exact h _ ⟨hfor, (some_get hsome).symm, hpool, hfree⟩

theorem onMessage_effect (now : ℕ) : w.Effect now (.message msg) (w.onMessage now msg) := by
  have hreleased : (Event.message msg).released =
      if packet.op = 1 ∧ packet.msgType = some MsgType.release.code then some packet.macAddr
      else none := by
    show (parseDhcpPacket msg).bind _ = _
    rw [hparse]
    rfl
  have hkept := fun hne => hreleased.trans (if_neg hne)
  have hnot : ¬ (packet.op = 1 ∧ packet.msgType = some MsgType.request.code) →
      ∀ msg', Event.message msg = .message msg' → w.asksOther msg' = false := by
    rintro hne _ ⟨⟩
    exact asksOther_of_not_request hparse hne
  unfold onMessage
  rw [hparse]
  dsimp only
  split
  · rename_i hop
    exact .idle rfl rfl nofun (hkept fun h => hop h.1)
      (hnot fun h => hop h.1)
  · rename_i hop
    rw [not_not] at hop
    split
    · rename_i htype
      have hoffer : (w.handleDiscover packet).1.book = w.book ∧
          (w.handleDiscover packet).1.config = w.config ∧
          ∀ response, (w.handleDiscover packet).2 = some response → response.msgType ≠ .ack ∧
            (response.msgType ≠ .nak →
              w.allocateIp response.packet.macAddr = some response.assignedIp) := by
        unfold handleDiscover
        split
        · exact ⟨rfl, rfl, nofun⟩
        · rename_i hip
          refine ⟨rfl, rfl, fun response h => ?_⟩
          cases h
          exact ⟨nofun, fun _ => hip⟩
      refine .idle hoffer.1 hoffer.2.1 hoffer.2.2 (hkept fun h => ?_) (hnot fun h => ?_)
      all_goals
        rw [htype] at h
        exact absurd h.2 (by decide)
    · split
      · rename_i htype
        have hnone := hkept fun h => by
          rw [htype] at h
          exact absurd h.2 (by decide)
        by_cases hack : ∃ ip, w.Acknowledges packet ip
        · obtain ⟨_, hack⟩ := hack
          rw [hack.handleRequest]
          exact .acknowledged rfl hparse hack (asksOther_eq hparse hop htype hack) rfl rfl rfl hnone
        · rw [not_exists] at hack
          obtain ⟨hbook, hconf, hnak⟩ := handleRequest_of_not hack now
          refine .idle hbook hconf (fun response h => ?_) hnone ?_
          · rw [hnak response h]
            exact ⟨nofun, absurd rfl⟩
          rintro _ ⟨⟩
          exact asksOther_eq_false hparse hack
      · rename_i hreq
        split
        · rename_i htype
          refine .released rfl ?_ (hnot fun h => hreq h.2)
          rw [hreleased, if_pos ⟨hop, htype⟩]
        · rename_i htype
          exact .idle rfl rfl nofun (hkept fun h => htype h.2)
            (hnot fun h => hreq h.2)

omit hparse in
theorem effect (w : Worker) (now : ℕ) (event : Event) : w.Effect now event (w.step now event) := by
  cases event with
  | releaseLease _ => exact .released rfl rfl nofun
  | checkExpiredLeases => exact .expired rfl rfl
  | wait _ =>
    exact .idle rfl rfl nofun rfl nofun
  | message msg =>
    cases hparse : parseDhcpPacket msg with
    | some _ => exact onMessage_effect hparse now
    | none =>
      have hstep : w.onMessage now msg = (w, none) := by
        unfold onMessage
        rw [hparse]
      show w.Effect now _ (w.onMessage now msg)
      rw [hstep]
      refine .idle rfl rfl nofun ?_ ?_
      · show (parseDhcpPacket msg).bind _ = _
        rw [hparse]
        rfl
      · rintro _ ⟨⟩
        unfold asksOther
        rw [hparse]
        rfl

/-! ## The pool -/

theorem requestedIp_eq_some (h : requestedIp packet = some ip) : ∃ num, ip = numToIp num := by
  rcases Option.or_eq_some_iff.mp h with hopt | ⟨-, hciaddr⟩
  · exact (parseDhcpPacket_ok hparse).2.2 ip hopt
  · split at hciaddr
    · cases hciaddr
    · exact ⟨_, (Option.some_inj.mp hciaddr).symm⟩

end

theorem Acknowledges.isPooled (h : w.Acknowledges packet ip)
    (hparse : parseDhcpPacket msg = some packet) : IsPooled w.config ip := by
  obtain ⟨num, rfl⟩ := requestedIp_eq_some hparse h.requested
  have hpool := h.pooled
  unfold inPool at hpool
  rw [ipToNum_numToIp, Bool.and_eq_true, decide_eq_true_eq, decide_eq_true_eq] at hpool
  exact ⟨num, hpool.1, hpool.2, rfl⟩

theorem isPooled_of_mem_poolIps (h : ip ∈ w.poolIps) : IsPooled w.config ip := by
  obtain ⟨num, hnum, rfl⟩ := List.mem_map.mp h
  obtain ⟨_, _⟩ := List.mem_range'_1.mp hnum
  have hend := w.config.poolEnd.toNat_lt
  have hof : (UInt32.ofNat num).toNat = num :=
    UInt32.toNat_ofNat_of_lt' (by show num < 2 ^ 32; omega)
  refine ⟨UInt32.ofNat num, ?_, ?_, rfl⟩
  · rw [UInt32.le_iff_toNat_le]
    omega
  · rw [UInt32.le_iff_toNat_le]
    omega

/-- The tables are inverse and the leased addresses are those of the pool. -/
structure Inv (w : Worker) : Prop where
  inverse : w.book.Inverse
  pooled : ∀ macAddr lease, w.book.leaseOf macAddr = some lease → IsPooled w.config lease.address

theorem Inv.isPooled_allocateIp (h : w.Inv) {macAddr : List Char}
    (hip : w.allocateIp macAddr = some ip) : IsPooled w.config ip := by
  unfold allocateIp at hip
  split at hip
  · rename_i lease hlease
    cases hip
    exact h.pooled macAddr lease hlease
  · exact isPooled_of_mem_poolIps (List.mem_of_find?_eq_some hip)

theorem Inv.acknowledge (h : w.Inv) (hparse : parseDhcpPacket msg = some packet)
    (hack : w.Acknowledges packet ip) (expiresAt : ℕ) :
    (w.book.acknowledge packet.macAddr ip expiresAt).Inverse ∧
      (w.book.acknowledge packet.macAddr ip expiresAt).Within (IsPooled w.config) := by
  refine ⟨h.inverse.acknowledge expiresAt fun _ other hholder => ?_,
    Book.Within.acknowledge h.pooled (hack.isPooled hparse) _ _⟩
  have hfree := hack.free
  unfold isTaken at hfree
  rwa [hholder, any_some, decide_eq_false_iff_not, not_not] at hfree

theorem Inv.step (h : w.Inv) (now : ℕ) (event : Event) :
    (w.step now event).1.Inv ∧ (w.step now event).1.config = w.config := by
  cases w.effect now event with
  | idle hbook hconf =>
    refine ⟨⟨hbook ▸ h.inverse, ?_⟩, hconf⟩
    rw [hbook, hconf]
    exact h.pooled
  | acknowledged _ hparse hack _ hbook hconf =>
    obtain ⟨hinverse, hpooled⟩ := h.acknowledge hparse hack _
    refine ⟨⟨hbook ▸ hinverse, ?_⟩, hconf⟩
    rw [hbook, hconf]
    exact hpooled
  | @released macAddr hafter =>
    rw [hafter]
    exact ⟨⟨h.inverse.release macAddr, Book.Within.release h.pooled macAddr⟩, rfl⟩
  | expired _ hafter =>
    rw [hafter]
    exact ⟨⟨h.inverse.expire now, Book.Within.expire h.pooled now⟩, rfl⟩

end Worker

/-! ## Runs -/

variable {event : Event}

namespace Run

/-- No client that has a lease asks for another address in the run. -/
def Keeps : Run → List Event → Prop
  | _, [] => True
  | run, event :: events => (∀ msg, event = .message msg → run.worker.asksOther msg = false) ∧
    Keeps (run.step event) events

/-- The leases stand behind the acknowledgements that have not ended. -/
def Backed (run : Run) : Prop := run.worker.book.Backs run.now run.worker.leaseMillis run.acks

variable {run : Run}

theorem leaseMillis_step (h : run.worker.Inv) (event : Event) :
    (run.step event).worker.leaseMillis = run.worker.leaseMillis := by
  unfold Worker.leaseMillis
  rw [show (run.step event).worker.config = _ from (h.step run.now event).2]

theorem acks_step_of_none
    (h : ∀ response, (run.worker.step run.now event).2 = some response → response.msgType ≠ .ack) :
    (run.step event).acks = run.acks.filter fun ack => some ack.client ≠ event.released := by
  unfold step
  cases hresp : (run.worker.step run.now event).2 with
  | none => exact List.append_nil _
  | some response =>
    rw [bind_some, Response.ack?, if_neg (h response hresp)]
    exact List.append_nil _

theorem Backed.step (h : run.Backed) (hinv : run.worker.Inv)
    (hkeeps : ∀ msg, event = .message msg → run.worker.asksOther msg = false) :
    (run.step event).Backed := by
  unfold Backed
  rw [leaseMillis_step hinv]
  have hnow : run.now ≤ (run.step event).now := Nat.le_add_right ..
  suffices hsame : (run.step event).worker.book.Backs run.now run.worker.leaseMillis
      (run.step event).acks from hsame.mono hnow (List.Subset.refl _)
  have hquiet : ∀ after : Worker, run.worker.step run.now event = (after, none) →
      ∀ response, (run.worker.step run.now event).2 = some response → response.msgType ≠ .ack := by
    intro after hafter response hresp
    rw [hafter] at hresp
    cases hresp
  cases run.worker.effect run.now event with
  | idle hbook _ hresp =>
    rw [acks_step_of_none fun response hsome => (hresp response hsome).1,
      show (run.step event).worker.book = _ from hbook]
    exact h.mono le_rfl (List.filter_subset_self _)
  | @acknowledged msg packet ip hevent hparse hok hother hbook hconf hresp hreleased =>
    rw [hkeeps msg hevent] at hother
    have hacks : (run.step event).acks =
        run.acks ++ [⟨packet.macAddr, ip, run.now + run.worker.leaseMillis⟩] := by
      unfold Run.step
      rw [hresp, hreleased]
      simp [Response.ack?]
    rw [hacks, show (run.step event).worker.book = _ from hbook]
    refine Book.Backs.acknowledge h fun lease hlease => ?_
    rw [hlease, any_some, eq_comm, decide_eq_false_iff_not, not_not] at hother
    exact hother
  | @released macAddr hafter hreleased =>
    rw [acks_step_of_none (hquiet _ hafter), hreleased,
      show (run.step event).worker = _ from congrArg Prod.fst hafter]
    simpa [Worker.releaseLease] using Book.Backs.release h macAddr
  | expired _ hafter =>
    rw [acks_step_of_none (hquiet _ hafter),
      show (run.step event).worker = _ from congrArg Prod.fst hafter]
    exact (Book.Backs.expire h).mono le_rfl (List.filter_subset_self _)

theorem inv_steps (h : run.worker.Inv) (events : List Event) :
    (run.steps events).worker.Inv ∧ (run.steps events).worker.config = run.worker.config := by
  induction events generalizing run with
  | nil => exact ⟨h, rfl⟩
  | cons event _ ih =>
    obtain ⟨hinv, hconf⟩ := h.step run.now event
    obtain ⟨hlast, hsame⟩ := ih (show (run.step event).worker.Inv from hinv)
    exact ⟨hlast, hsame.trans hconf⟩

theorem Backed.steps (h : run.Backed) (hinv : run.worker.Inv) {events : List Event}
    (hkeeps : run.Keeps events) : (run.steps events).Backed := by
  induction events generalizing run with
  | nil => exact h
  | cons event _ ih =>
    exact ih (h.step hinv hkeeps.1) (hinv.step run.now event).1 hkeeps.2

theorem inv_start (config : Config) (now : ℕ) : (start config now).worker.Inv where
  inverse := Book.inverse_empty
  pooled := nofun

theorem backed_start (config : Config) (now : ℕ) : (start config now).Backed :=
  Book.Backs.nil ..

end Run

/-! ## Responses -/

namespace Worker

theorem isPooled_response {w : Worker} (h : w.Inv) {now : ℕ} {response : Response}
    (hresp : (w.step now event).2 = some response) (htype : response.msgType ≠ .nak) :
    IsPooled w.config response.assignedIp := by
  cases w.effect now event with
  | idle _ _ hall =>
    exact h.isPooled_allocateIp ((hall response hresp).2 htype)
  | acknowledged _ hparse hack _ _ _ hsome =>
    rw [hsome] at hresp
    cases hresp
    exact hack.isPooled hparse
  | released hafter | _ _ hafter =>
    rw [hafter] at hresp
    cases hresp

/-- The address that is acknowledged is that of the client's lease, unless the client has a lease
and asked for another address. -/
theorem leaseOf_ack {w : Worker} {now : ℕ} {response : Response}
    (hresp : (w.step now event).2 = some response) (htype : response.msgType = .ack) :
    ∃ msg, event = .message msg ∧
      (((w.step now event).1.book.leaseOf response.packet.macAddr).map Lease.address =
        some response.assignedIp ↔ w.asksOther msg = false) := by
  cases w.effect now event with
  | idle _ _ hall => exact absurd htype (hall response hresp).1
  | @acknowledged msg packet ip hevent hparse hack hother hbook hconf hsome =>
    rw [hsome] at hresp
    cases hresp
    refine ⟨msg, hevent, ?_⟩
    rw [hbook, Book.leaseOf_acknowledge, if_pos rfl, hother]
    cases w.book.leaseOf packet.macAddr with
    | none => exact ⟨fun _ => rfl, fun _ => rfl⟩
    | some _ => simp
  | released hafter | _ _ hafter =>
    rw [hafter] at hresp
    cases hresp

end Worker

namespace Run

/-- After every run the tables are inverse, every address offered or acknowledged next is one of the
pool, and an address acknowledged next is the one in the client's lease exactly when the client did
not ask for another one than it has. As long as no client does, no two clients hold unexpired
acknowledgements of one address. -/
theorem lease_unique (config : Config) (now : ℕ) (events : List Event) :
    let run := (start config now).steps events
    run.worker.book.Inverse ∧
      (∀ event response, (run.worker.step run.now event).2 = some response →
        response.msgType ≠ .nak → ∃ num, config.poolStart ≤ num ∧ num ≤ config.poolEnd ∧
          response.assignedIp = numToIp num ∧
          yiaddr (response.encode config) = uint32be num.toNat) ∧
      (∀ event response, (run.worker.step run.now event).2 = some response →
        response.msgType = .ack → ∃ msg, event = .message msg ∧
          (((run.step event).worker.book.leaseOf response.packet.macAddr).map Lease.address =
            some response.assignedIp ↔ run.worker.asksOther msg = false)) ∧
      ((start config now).Keeps events → ∀ a ∈ run.acks, ∀ b ∈ run.acks, a.address = b.address →
        run.now ≤ a.expiresAt → run.now ≤ b.expiresAt → a.client = b.client) := by
  intro run
  obtain ⟨hinv, hconf⟩ := inv_steps (inv_start config now) events
  refine ⟨hinv.inverse, fun event response hresp htype => ?_,
    fun event response => Worker.leaseOf_ack, fun hkeeps a ha b hb hip => ?_⟩
  · obtain ⟨num, hlow, hhigh, hip⟩ := Worker.isPooled_response hinv hresp htype
    have hconf' : run.worker.config = config := hconf
    rw [hconf'] at hlow hhigh
    refine ⟨num, hlow, hhigh, hip, ?_⟩
    unfold Response.encode
    rw [hip]
    exact yiaddr_buildDhcpResponse ..
  · exact ((backed_start config now).steps (inv_start config now) hkeeps).exclusive
      hinv.inverse ha hb hip

/-! ## A client that changes its address -/

/-- Clients with the hardware addresses `02:00:00:00:00:mac`. -/
def sampleMessage (msgType : MsgType) (mac : UInt8) (options : Buffer) : Buffer :=
  [1, 1, 6, 0] ++ [0, 0, 0, mac] ++ List.replicate 20 0 ++ [2, 0, 0, 0, 0, mac] ++
    List.replicate 202 0 ++ magicCookie ++ buildOption 53 [msgType.code] ++ options ++ [255]

/-- The pool has the addresses 10.0.0.10 and 10.0.0.11. -/
def sampleConfig : Config where
  serverIp := 167772161
  poolStart := 167772170
  poolEnd := 167772171
  leaseTime := 3600
  subnetMask := 4294967040
  gateway := none
  dns1 := none
  dns2 := none

def sampleRequest (mac octet : UInt8) : Event :=
  .message (sampleMessage .request mac (buildOption 50 [10, 0, 0, octet]))

/-- The first client gets 10.0.0.10 and asks for 10.0.0.11 then, which the second client gets
too. -/
def sampleChange : List Event := [sampleRequest 1 10, sampleRequest 1 11, sampleRequest 2 11]

theorem address_acknowledged_twice :
    let run := (start sampleConfig 0).steps sampleChange
    (∃ a ∈ run.acks, ∃ b ∈ run.acks, a.address = b.address ∧ run.now ≤ a.expiresAt ∧
        run.now ≤ b.expiresAt ∧ a.client ≠ b.client) ∧
      run.acks.map (fun ack => (String.ofList ack.client, ack.address)) =
        [("02:00:00:00:00:01", "10.0.0.10"), ("02:00:00:00:00:01", "10.0.0.11"),
          ("02:00:00:00:00:02", "10.0.0.11")] ∧
      (run.worker.book.leaseOf "02:00:00:00:00:01".toList).map Lease.address =
        some "10.0.0.10" := by
  decide +kernel

/-- The second client gets the address after the first one has given it back. -/
def sampleReturn : List Event :=
  [sampleRequest 1 10, sampleRequest 1 10, .message (sampleMessage .release 1 []),
    sampleRequest 2 10]

theorem lease_unique_return :
    let run := (start sampleConfig 0).steps sampleReturn
    (start sampleConfig 0).Keeps sampleReturn ∧
      run.acks.map (fun ack => (String.ofList ack.client, ack.address)) =
        [("02:00:00:00:00:02", "10.0.0.10")] ∧
      ∀ a ∈ run.acks, ∀ b ∈ run.acks, a.address = b.address →
        run.now ≤ a.expiresAt → run.now ≤ b.expiresAt → a.client = b.client := by
  have hkeeps : (start sampleConfig 0).Keeps sampleReturn := by
    refine ⟨?_, ?_, ?_, ?_, trivial⟩ <;>
      · rintro - ⟨⟩
        decide +kernel
  exact ⟨hkeeps, by decide +kernel, (lease_unique sampleConfig 0 sampleReturn).2.2.2 hkeeps⟩

end Run

end Dhcp
