import NetNexus.Node.Proofs.NumberProofs
import NetNexus.Tftp.Proofs.SessionProofs
import NetNexus.Tftp.Transfer

/-!
# A download delivers the file

For a file with fewer than `2 ^ 16` blocks the session and the client go through the blocks in
lockstep, whatever arrives in between: the client is at most one block behind. A round that gets
through moves them on, and the session gives up only after the rounds that it counts as lost.
-/

namespace Tftp

open Download List Node Session

/-! ## The course of a download -/

/-- What is to be sent: a file in blocks, after the acknowledgement of the options if there is
one. -/
structure Plan where
  file : Buffer
  blockSize : ℕ
  oack : Buffer
  limit : ℕ
  pos : 0 < blockSize
  opcode : readUInt16BE oack 0 = some Opcode.oack.code

namespace Plan

variable (p : Plan)

def count : ℕ := p.file.length / p.blockSize + 1

/-- The blocks, counted from one. -/
def chunk (n : ℕ) : Buffer := (p.file.drop ((n - 1) * p.blockSize)).take p.blockSize

/-- The packets in the order in which they are sent. -/
def packet : ℕ → Buffer
  | 0 => p.oack
  | n + 1 => buildData (n + 1) (p.chunk (n + 1))

def client (n : ℕ) : Receiver where
  blocks := (List.range n).map fun i => p.chunk (i + 1)
  finished := n = p.count

variable {n : ℕ}

theorem length_chunk (hn : 1 ≤ n) (hcount : n ≤ p.count) :
    (p.chunk n).length < p.blockSize ↔ n = p.count := by
  obtain ⟨m, rfl⟩ := Nat.exists_eq_add_of_le' hn
  have hlen : (p.chunk (m + 1)).length = min p.blockSize (p.file.length - m * p.blockSize) := by
    simp [chunk]
  have hshort : p.file.length / p.blockSize < m + 1 ↔ p.file.length < (m + 1) * p.blockSize :=
    Nat.div_lt_iff_lt_mul p.pos
  have hpos := p.pos
  rw [Nat.add_mul] at hshort
  unfold count at hcount ⊢
  omega

theorem flatten_client (n : ℕ) : (p.client n).blocks.flatten = p.file.take (n * p.blockSize) := by
  induction n with
  | zero => simp [client]
  | succ n ih =>
    have hblks : (p.client (n + 1)).blocks = (p.client n).blocks ++ [p.chunk (n + 1)] := by
      simp [client, range_succ]
    rw [hblks, flatten_append, ih, flatten_singleton, Nat.add_mul, Nat.one_mul, take_add]
    rfl

theorem flatten_client_count : (p.client p.count).blocks.flatten = p.file := by
  rw [flatten_client]
  refine take_of_length_le ?_
  rw [Nat.mul_comm]
  exact (Nat.lt_mul_div_succ p.file.length p.pos).le

theorem length_client (n : ℕ) : (p.client n).blocks.length = n := by simp [client]

theorem last_client (h : n < 2 ^ 16) : (p.client n).last = n := by
  unfold Receiver.last
  rw [length_client, Nat.mod_eq_of_lt h]

theorem receive_next (hn : n < p.count) (hcount : p.count < 2 ^ 16) :
    (p.client n).receive p.blockSize (n + 1) (p.chunk (n + 1)) = p.client (n + 1) := by
  have hfin : (p.client n).finished = false := decide_eq_false (by omega)
  have hnum : n + 1 = ((p.client n).blocks.length + 1) % 2 ^ 16 := by
    rw [length_client, Nat.mod_eq_of_lt (by omega)]
  unfold Receiver.receive
  rw [if_pos ⟨hfin, hnum⟩]
  have hshort := p.length_chunk (show 1 ≤ n + 1 by omega) (by omega)
  simp only [client, range_succ, map_append]
  exact congrArg _ (decide_eq_decide.mpr hshort)

theorem receive_other {k : ℕ} (hk : k ≠ n + 1) (hcount : p.count < 2 ^ 16) (hn : n ≤ p.count)
    (data : Buffer) : (p.client n).receive p.blockSize k data = p.client n := by
  unfold Receiver.receive
  rw [if_neg]
  rintro ⟨hunfi, hnum⟩
  have hne : n ≠ p.count := of_decide_eq_false hunfi
  rw [length_client, Nat.mod_eq_of_lt (by omega)] at hnum
  exact hk hnum

theorem blockOf_packet_zero : blockOf .data (p.packet 0) = none := by
  unfold blockOf packet
  rw [p.opcode, if_neg (by decide)]

theorem answer_packet_zero (policy : Policy) (r : Receiver) :
    r.answer policy p.blockSize (p.packet 0) = (r, some (buildAck 0)) := by
  unfold Receiver.answer
  rw [p.blockOf_packet_zero]
  rw [packet, p.opcode, if_pos rfl]

/-- What a client at `c` does with a packet, when the session is at `n`. -/
theorem answer_packet (policy : Policy) {c k : ℕ} (hk : k ≤ c + 1) (hkcount : k ≤ p.count)
    (hcount : p.count < 2 ^ 16) (hc : c ≤ p.count) :
    ∃ answer : Option Buffer, (p.client c).answer policy p.blockSize (p.packet k) =
        (p.client (max c k), answer) ∧
      (∀ a, answer = some a → a = buildAck k) ∧ (c ≤ k → answer = some (buildAck k)) := by
  cases k with
  | zero =>
    rw [p.answer_packet_zero, Nat.max_zero]
    exact ⟨_, rfl, fun a ha => (Option.some_inj.mp ha).symm, fun _ => rfl⟩
  | succ k =>
    have hnext : (p.client c).receive p.blockSize (k + 1) (p.chunk (k + 1)) =
        p.client (max c (k + 1)) := by
      by_cases heq : k = c
      · rw [heq, p.receive_next (by omega) hcount, Nat.max_eq_right (Nat.le_succ c)]
      · rw [p.receive_other (by omega) hcount hc, Nat.max_eq_left (by omega)]
    unfold Receiver.answer
    rw [packet, blockOf_buildData (by omega), drop_buildData]
    dsimp only
    rw [hnext]
    refine ⟨_, rfl, fun a ha => ?_, fun hle => if_pos (.inl ?_)⟩
    · split at ha
      · exact (Option.some_inj.mp ha).symm
      · cases ha
    · rw [Nat.max_eq_right hle, p.last_client (by omega)]

end Plan

namespace Download

/-- What does not change about the session while it sends the file. -/
structure Sends (s : Session) (p : Plan) : Prop where
  isOpen : s.isOpen = true
  kind : s.kind = .read
  file : s.fileBuffer = p.file
  size : s.totalSize = p.file.length
  final : s.finalBlock = p.count
  blockSize : s.blockSize = p.blockSize
  limit : s.maxRetries = p.limit

/-- The packets on their way, once those up to `n` have been sent and those up to `c` received. -/
structure Sent (d : Download) (p : Plan) (n c : ℕ) : Prop where
  client : d.client = p.client c
  packets : ∀ packet ∈ d.packets, ∃ k ≤ n, packet = p.packet k
  answers : ∀ answer ∈ d.answers, ∃ k ≤ c, answer = buildAck k

/-- The session waits for the answer to packet `n`, and the client has `c` blocks. -/
structure At (d : Download) (p : Plan) (n c : ℕ) : Prop where
  sends : Sends d.session p
  timer : d.session.timer = true
  expect : d.session.expectOackAck = decide (n = 0)
  number : d.session.blockNumber = n
  last : d.session.lastSent = some (p.packet n)
  le_count : n ≤ p.count
  le : c ≤ n
  behind : n ≤ c + 1
  sent : d.Sent p n c

/-- The session has ended after the last block. -/
structure Completed (d : Download) (p : Plan) : Prop where
  status : d.session.status = .completed
  blockSize : d.session.blockSize = p.blockSize
  last : d.session.lastSent = some (p.packet p.count)
  sent : d.Sent p p.count p.count

/-- How far a download is: the packet whose answer is awaited, or one more than all of them. -/
inductive Rank (d : Download) (p : Plan) : ℕ → Prop
  | waiting {n c : ℕ} (h : d.At p n c) : Rank d p n
  | completed (h : d.Completed p) : Rank d p (p.count + 1)

/-! ## What arrives at the session -/

variable {d : Download} {p : Plan} {n c k lost : ℕ} {s : Session} {P : Session → Prop}

theorem Sent.send {m : ℕ} (h : d.Sent p n c) (hn : n ≤ m)
    (hlog : s.log = d.session.log ++ [.send (p.packet m)]) :
    { d with session := s }.Sent p m c := by
  refine ⟨h.client, fun packet hpkt => ?_, h.answers⟩
  change packet ∈ filterMap Output.packet? s.log at hpkt
  rw [hlog, filterMap_append] at hpkt
  rcases mem_append.mp hpkt with hold | hnew
  · obtain ⟨k, hk, rfl⟩ := h.packets packet hold
    exact ⟨k, hk.trans hn, rfl⟩
  · exact ⟨m, le_rfl, mem_singleton.mp hnew⟩

theorem sendDataBlock_eq (h : Sends s p) (n : ℕ) :
    s.sendDataBlock (n + 1) = { s with blockNumber := n + 1 }.transmit (p.packet (n + 1)) := by
  have hopen : { s with blockNumber := n + 1 }.isOpen = true := h.isOpen
  have hchunk : (s.fileBuffer.take (min ((n + 1 - 1) * s.blockSize + s.blockSize) s.totalSize)).drop
      ((n + 1 - 1) * s.blockSize) = p.chunk (n + 1) := by
    rw [h.file, h.size, h.blockSize, ← take_take, take_length, drop_take, Nat.add_sub_cancel_left]
    rfl
  unfold sendDataBlock
  dsimp only
  rw [hchunk, sendPacket_of_open hopen]
  rfl

theorem Sends.acceptOack (h : Sends s p) : Sends s.acceptOack p :=
  { h with }

theorem Sends.acceptAck (h : Sends s p) : Sends s.acceptAck p :=
  { h with }

theorem retries_sendDataBlock (h : Sends s p) (n : ℕ) :
    (s.sendDataBlock (n + 1)).retries = s.retries := by
  rw [sendDataBlock_eq h]
  rfl

theorem At.next (h : d.At p n c) (hcn : c = n) (hlt : n < p.count) (hs : Sends s p)
    (hlog : s.log = d.session.log) (hexpect : s.expectOackAck = false) :
    { d with session := s.sendDataBlock (n + 1) }.At p (n + 1) c := by
  rw [sendDataBlock_eq hs]
  refine ⟨{ hs with }, rfl, hexpect,
    rfl, rfl, hlt, by omega, by omega, h.sent.send (Nat.le_succ n) ?_⟩
  exact congrArg (· ++ [Output.send _]) hlog

theorem step_ack (h : Sends s p) (hk : k < 2 ^ 16) : s.step (.message (buildAck k)) =
    if s.expectOackAck then
      if k = 0 then s.acceptOack.sendDataBlock 1 else s else if k ≠ s.blockNumber then s
    else if s.finalBlock ≤ k then s.acceptAck.complete else s.acceptAck.sendDataBlock (k + 1) := by
  have hopcode : readUInt16BE (buildAck k) 0 = some Opcode.ack.code := rfl
  rw [step, onSocketMessage]
  rw [if_pos h.isOpen, hopcode, h.kind]
  dsimp only
  rw [if_neg (by decide), handleReadAck, blockOf_buildAck hk]

/-- What happens to the rank, to the client and to the retries. -/
structure Moves (d next : Download) (p : Plan) (n m : ℕ) : Prop where
  rank : next.Rank p m
  le : n ≤ m
  client : d.client.blocks.length ≤ next.client.blocks.length
  retries : next.session.retries ≤ d.session.retries
  reset : 1 ≤ n → n < m → next.session.retries = 0

theorem Moves.of_rank_eq {next : Download} (h : next.Rank p n)
    (hcli : d.client.blocks.length ≤ next.client.blocks.length)
    (hretr : next.session.retries = d.session.retries) : Moves d next p n n :=
  ⟨h, le_rfl, hcli, hretr.le, fun _ hlt => absurd hlt (Nat.lt_irrefl n)⟩

theorem Moves.refl (h : d.Rank p n) : Moves d d p n n := .of_rank_eq h le_rfl rfl

theorem Moves.trans {e f : Download} {m l : ℕ} (h : Moves d e p n m) (h' : Moves e f p m l) :
    Moves d f p n l where
  rank := h'.rank
  le := h.le.trans h'.le
  client := h.client.trans h'.client
  retries := h'.retries.trans h.retries
  reset := fun hn hlt => by
    by_cases hm : n < m
    · have hzero := h.reset hn hm
      have hle := h'.retries
      omega
    · have heq : n = m := Nat.le_antisymm h.le (Nat.not_lt.mp hm)
      exact h'.reset (heq ▸ hn) (heq ▸ hlt)

theorem Completed.isOpen (h : d.Completed p) : d.session.isOpen = false := by
  unfold Session.isOpen
  rw [h.status]
  rfl

theorem Completed.step (h : d.Completed p) (event : Event) :
    Moves d { d with session := d.session.step event } p (p.count + 1) (p.count + 1) := by
  obtain ⟨_, hstep⟩ := step_of_closed h.isOpen event
  rw [hstep]
  exact .of_rank_eq (.completed { h with sent := { h.sent with } }) le_rfl rfl

theorem At.timeout (h : d.At p n c) (hretr : d.session.retries < p.limit) :
    ∃ next, { d with session := d.session.step .timeout } = next ∧ next.At p n c ∧
      next.session.retries = d.session.retries + 1 := by
  refine ⟨_, rfl, ?_⟩
  have hstep : d.session.step .timeout =
      { d.session.send (p.packet n) with retries := d.session.retries + 1, timer := true } := by
    rw [step, if_pos h.timer, onTimeout, if_pos h.sends.isOpen,
      if_neg (by rw [h.sends.limit]; omega), h.last]
  rw [hstep]
  refine ⟨{ h with
    sends := { h.sends with }
    timer := rfl
    sent := h.sent.send le_rfl rfl }, rfl⟩

section Deliveries

variable (hcount : p.count < 2 ^ 16)
include hcount

/-- The answer to a packet arrives. If it is the one that is awaited, the session moves on. -/
theorem At.toSession (h : d.At p n c) (hk : k ≤ c) :
    ∃ m, Moves d (d.toSession (buildAck k)) p n m ∧ (k = n → n < m) := by
  have hle := h.le
  have hle_count := h.le_count
  have hstep := step_ack h.sends (show k < 2 ^ 16 by omega)
  unfold Download.toSession
  rw [hstep, h.expect, h.number, h.sends.final]
  by_cases hn : n = 0
  · -- the acknowledgement of the options
    have hk0 : k = 0 := by omega
    rw [if_pos (decide_eq_true hn), if_pos hk0]
    have hretr := retries_sendDataBlock h.sends.acceptOack 0
    refine ⟨1, ⟨.waiting (c := c) ?_, by omega, le_rfl, hretr.le,
      fun hpos => by omega⟩, fun _ => by omega⟩
    subst hn
    exact h.next (by omega) (Nat.succ_pos _) h.sends.acceptOack rfl rfl
  · rw [if_neg (by simpa using hn)]
    by_cases hkn : k = n
    · rw [if_neg (not_not.mpr hkn)]
      have hcn : c = n := by omega
      by_cases hlast : p.count ≤ k
      · rw [if_pos hlast, complete, cleanup, if_pos h.sends.acceptAck.isOpen]
        have hcc : c = p.count := by omega
        have hnc : n = p.count := by omega
        have hlastSent := h.last
        have hsent := h.sent
        rw [hnc] at hlastSent
        rw [hcc, hnc] at hsent
        exact ⟨p.count + 1, ⟨.completed ⟨rfl, h.sends.blockSize, hlastSent,
          { hsent with }⟩, by omega, le_rfl, Nat.zero_le _,
          fun _ _ => rfl⟩, fun _ => by omega⟩
      · rw [if_neg hlast, hkn]
        have hretr := retries_sendDataBlock h.sends.acceptAck n
        refine ⟨n + 1, ⟨.waiting (c := c) ?_, by omega, le_rfl, ?_, fun _ _ => hretr⟩,
          fun _ => by omega⟩
        · exact h.next hcn (by omega) h.sends.acceptAck rfl (h.expect.trans (decide_eq_false hn))
        · exact hretr.le.trans (Nat.zero_le _)
    · rw [if_pos hkn]
      exact ⟨n, Moves.refl (.waiting h), fun heq => absurd heq hkn⟩

variable (policy : Policy)

/-! ## What arrives at the client -/

theorem Sent.toClient (h : d.Sent p n c)
    (hblockSize : d.session.blockSize = p.blockSize) (hn : n ≤ p.count)
    (hc : c ≤ p.count) (hnc : n ≤ c + 1) (hk : k ≤ n) :
    (d.toClient policy (p.packet k)).Sent p n (max c k) := by
  obtain ⟨_, hans, hack, -⟩ :=
    p.answer_packet policy (show k ≤ c + 1 by omega) (by omega) hcount hc
  unfold Download.toClient
  rw [h.client, hblockSize, hans]
  refine ⟨rfl, h.packets, fun a ha => ?_⟩
  rcases mem_append.mp ha with hold | hnew
  · obtain ⟨j, hj, rfl⟩ := h.answers a hold
    exact ⟨j, hj.trans (Nat.le_max_left c k), rfl⟩
  · exact ⟨k, Nat.le_max_right c k, hack a (Option.mem_toList.mp hnew)⟩

theorem At.toClient (h : d.At p n c) (hk : k ≤ n) :
    (d.toClient policy (p.packet k)).At p n (max c k) :=
  { h with
    le := Nat.max_le.mpr ⟨h.le, hk⟩
    behind := h.behind.trans (Nat.succ_le_succ (Nat.le_max_left c k))
    sent := h.sent.toClient hcount policy h.sends.blockSize h.le_count
      (h.le.trans h.le_count) h.behind hk }

theorem Completed.toClient (h : d.Completed p)
    (hk : k ≤ p.count) : (d.toClient policy (p.packet k)).Completed p := by
  have hsent := h.sent.toClient hcount policy h.blockSize le_rfl le_rfl
    (Nat.le_succ _) hk
  rw [Nat.max_eq_left hk] at hsent
  exact { h with sent := hsent }

theorem At.moves (h : d.At p n c) (hk : k ≤ n) :
    Moves d (d.toClient policy (p.packet k)) p n n := by
  have hnext := h.toClient hcount policy hk
  refine .of_rank_eq (.waiting hnext) ?_ rfl
  rw [h.sent.client, hnext.sent.client, p.length_client, p.length_client]
  exact Nat.le_max_left c k

theorem Completed.moves (h : d.Completed p) (hk : k ≤ p.count) :
    Moves d (d.toClient policy (p.packet k)) p (p.count + 1) (p.count + 1) := by
  have hnext := h.toClient hcount policy hk
  refine .of_rank_eq (.completed hnext) ?_ rfl
  rw [h.sent.client, hnext.sent.client]

/-! ## Whatever arrives -/

theorem Rank.deliver (h : d.Rank p n) (delivery : Delivery) :
    ∃ m, Moves d (d.deliver policy delivery) p n m := by
  cases delivery with
  | toClient i =>
    show ∃ m, Moves d ((d.packets[i]?).elim d _) p n m
    cases hi : d.packets[i]? with
    | none => exact ⟨n, Moves.refl h⟩
    | some packet =>
      have hmem := mem_of_getElem? hi
      cases h with
      | waiting h | _ h =>
        obtain ⟨k, hk, rfl⟩ := h.sent.packets packet hmem
        exact ⟨_, h.moves hcount policy hk⟩
  | toSession i =>
    show ∃ m, Moves d ((d.answers[i]?).elim d d.toSession) p n m
    cases hi : d.answers[i]? with
    | none => exact ⟨n, Moves.refl h⟩
    | some answer =>
      have hmem := mem_of_getElem? hi
      cases h with
      | waiting h =>
        obtain ⟨k, hk, rfl⟩ := h.sent.answers answer hmem
        obtain ⟨m, hmoves, -⟩ := h.toSession hcount hk
        exact ⟨m, hmoves⟩
      | completed h => exact ⟨_, h.step _⟩

theorem Rank.delivers (h : d.Rank p n) (deliveries : List Delivery) :
    ∃ m, Moves d (d.delivers policy deliveries) p n m := by
  induction deliveries generalizing d n with
  | nil => exact ⟨n, Moves.refl h⟩
  | cons delivery _ ih =>
    obtain ⟨m, hfirst⟩ := h.deliver hcount policy delivery
    obtain ⟨l, hrest⟩ := ih hfirst.rank
    exact ⟨l, hfirst.trans hrest⟩

theorem Moves.exchange (h : Moves d (d.toClient policy (p.packet k)) p n n)
    (hlast : d.session.lastSent = some (p.packet k))
    (hans : (d.client.answer policy d.session.blockSize (p.packet k)).2 = some (buildAck k))
    (hcli : k ≤ (d.toClient policy (p.packet k)).client.blocks.length) (between : List Delivery) :
    ∃ m, Moves d (d.exchange policy between) p n m ∧ (n ≤ p.count → k = n → n < m) := by
  obtain ⟨m, hbtw⟩ := h.rank.delivers hcount policy between
  have hexch : d.exchange policy between =
      ((d.toClient policy (p.packet k)).delivers policy between).toSession (buildAck k) := by
    unfold Download.exchange
    rw [hlast]
    dsimp only
    rw [hans]
    rfl
  have hthere := h.trans hbtw
  have hcli' := hcli.trans hbtw.client
  rw [hexch]
  cases hbtw.rank with
  | @waiting m c hat =>
    rw [hat.sent.client, p.length_client] at hcli'
    obtain ⟨l, hlast, hnext⟩ := hat.toSession hcount hcli'
    refine ⟨l, hthere.trans hlast, fun _ hkn => ?_⟩
    by_cases heq : n = m
    · exact heq ▸ hnext (hkn.trans heq)
    · exact (Nat.lt_of_le_of_ne hthere.le heq).trans_le hlast.le
  | completed hdone =>
    exact ⟨_, hthere.trans (hdone.step _), fun hle _ => Nat.lt_succ_of_le hle⟩

/-- An exchange that gets through moves the session on. -/
theorem Rank.exchange (h : d.Rank p n) (between : List Delivery) :
    ∃ m, Moves d (d.exchange policy between) p n m ∧ (n ≤ p.count → n < m) := by
  cases h with
  | @waiting n c h =>
    obtain ⟨_, hans, -, hsome⟩ := p.answer_packet policy (h.behind)
      h.le_count hcount (h.le.trans h.le_count)
    have hnext := h.toClient hcount policy le_rfl
    obtain ⟨m, hmoves, hlt⟩ := (h.moves hcount policy le_rfl).exchange hcount policy h.last
      (by rw [h.sent.client, h.sends.blockSize, hans]; exact hsome h.le)
      (by rw [hnext.sent.client, p.length_client]; exact Nat.le_max_right c n) between
    exact ⟨m, hmoves, fun hle => hlt hle rfl⟩
  | completed h =>
    obtain ⟨_, hans, -, hsome⟩ := p.answer_packet policy (Nat.le_succ p.count)
      le_rfl hcount le_rfl
    have hnext := h.toClient hcount policy le_rfl
    obtain ⟨m, hmoves, -⟩ := (h.moves hcount policy le_rfl).exchange hcount policy h.last
      (by rw [h.sent.client, h.blockSize, hans]; exact hsome le_rfl)
      (by rw [hnext.sent.client, p.length_client]) between
    exact ⟨m, hmoves, fun hle => absurd hle (Nat.not_succ_le_self _)⟩

/-! ## Rounds -/

theorem Rank.round_lost (h : d.Rank p n) {r : Round} (hr : r.through = none)
    (hretr : n ≤ p.count → d.session.retries < p.limit) :
    ∃ m, (d.round policy r).Rank p m ∧ n ≤ m ∧
      (d.round policy r).session.retries ≤ d.session.retries + 1 := by
  obtain ⟨m, hnoise⟩ := h.delivers hcount policy r.noise
  have hround : d.round policy r = { d.delivers policy r.noise with
      session := (d.delivers policy r.noise).session.step .timeout } := by
    unfold round
    rw [hr]
  have hspent := hnoise.retries
  have hgrown := hnoise.le
  rw [hround]
  cases hnoise.rank with
  | waiting hat =>
    obtain ⟨_, hnext, hat', _⟩ :=
      hat.timeout (by have := hat.le_count; have := hretr (by omega); omega)
    rw [hnext]
    exact ⟨_, .waiting hat', hnoise.le, by omega⟩
  | completed hdone =>
    have hmoves := hdone.step .timeout
    exact ⟨_, hmoves.rank, hnoise.le, Nat.le_succ_of_le (hmoves.retries.trans hspent)⟩

theorem Rank.round_through (h : d.Rank p n) {r : Round}
    {between : List Delivery} (hr : r.through = some between) :
    ∃ m, Moves d (d.round policy r) p n m ∧ (n ≤ p.count → n < m) := by
  obtain ⟨m, hnoise⟩ := h.delivers hcount policy r.noise
  obtain ⟨l, hexch, hlt⟩ := hnoise.rank.exchange hcount policy between
  have hround : d.round policy r = (d.delivers policy r.noise).exchange policy between := by
    unfold round
    rw [hr]
  rw [hround]
  refine ⟨l, hnoise.trans hexch, fun hle => ?_⟩
  by_cases hm : m ≤ p.count
  · exact hnoise.le.trans_lt (hlt hm)
  · exact hle.trans_lt ((Nat.not_le.mp hm).trans_le hexch.le)

theorem Rank.rounds (h : d.Rank p n) {joined : Bool}
    (hlost : n ≤ p.count → d.session.retries ≤ lost) (hjoin : joined = false → 1 ≤ n)
    {rs : List Round} (hfair : Fair p.limit joined lost rs) : ∃ m, (d.rounds policy rs).Rank p m ∧
      min (n + rs.countP fun r => r.through.isSome) (p.count + 1) ≤ m := by
  induction rs generalizing d n joined lost with
  | nil => exact ⟨n, h, by rw [countP_nil]; omega⟩
  | cons r _ ih =>
    unfold Fair at hfair
    cases hr : r.through with
    | none =>
      rw [hr] at hfair
      obtain ⟨m, hrank, hle, hretr⟩ := h.round_lost hcount policy hr fun hn =>
        (hlost hn).trans_lt hfair.1
      have hlost' : m ≤ p.count → (d.round policy r).session.retries ≤ lost + 1 := fun hm =>
        hretr.trans (Nat.succ_le_succ (hlost (hle.trans hm)))
      obtain ⟨l, hlast, _⟩ := ih hrank hlost' (fun hj => (hjoin hj).trans hle)
        hfair.2
      refine ⟨l, hlast, ?_⟩
      rw [countP_cons, hr]
      rw [Option.isSome_none, if_neg Bool.false_ne_true]
      omega
    | some _ =>
      rw [hr] at hfair
      obtain ⟨m, hmoves, hlt⟩ := h.round_through hcount policy hr
      have hpos : 1 ≤ m := by
        by_cases hn : n ≤ p.count
        · exact (Nat.zero_le n).trans_lt (hlt hn)
        · have hle := hmoves.le
          omega
      have hretr : m ≤ p.count →
          (d.round policy r).session.retries ≤ if joined = true then lost else 0 := by
        intro hm
        have hn : n ≤ p.count := hmoves.le.trans hm
        cases joined with
        | true => exact hmoves.retries.trans (hlost hn)
        | false => exact (hmoves.reset (hjoin rfl) (hlt hn)).le
      obtain ⟨l, hlast, _⟩ := ih hmoves.rank hretr (fun _ => hpos) hfair
      refine ⟨l, hlast, ?_⟩
      rw [countP_cons, hr]
      rw [Option.isSome_some, if_pos rfl]
      by_cases hn : n ≤ p.count
      · omega
      · have := hmoves.le
        omega

end Deliveries

/-! ## The start and the end -/

variable {limit : ℕ} {joined : Bool} {rs : List Round}

/-- Rounds that get through are not rarer than the limit allows. -/
theorem length_le_of_fair (h : Fair limit joined lost rs) (hlost : lost ≤ limit) :
    rs.length + lost ≤ (rs.countP fun r => r.through.isSome) * (limit + 1) + limit := by
  induction rs generalizing joined lost with
  | nil => simpa using hlost
  | cons r rs ih =>
    unfold Fair at h
    rw [countP_cons, length_cons]
    split at h
    · rename_i hr
      have hrest := ih h (by split <;> omega)
      rw [if_pos hr, Nat.add_mul]
      omega
    · rename_i hr
      have hrest := ih h.2 h.1
      rw [if_neg hr]
      show rs.length + 1 + lost ≤ (rs.countP fun r => r.through.isSome) * _ + limit
      omega

theorem Completed.delivered (h : d.Completed p) : d.Delivered p.file where
  completed := h.status
  content := by
    rw [h.sent.client]
    exact p.flatten_client_count
  short := fun i data hdata => by
    rw [h.sent.client] at hdata ⊢
    rw [h.blockSize, p.length_client]
    have hi : i < p.count := by
      have hlt := (List.getElem?_eq_some_iff.mp hdata).1
      rwa [p.length_client] at hlt
    have hchunk : data = p.chunk (i + 1) := by
      simpa [Plan.client, hi, eq_comm] using hdata
    rw [hchunk]
    exact p.length_chunk (by omega) hi

theorem negotiateBlockSize_pos (options : Options) : 0 < (negotiateBlockSize options).getD 512 := by
  unfold negotiateBlockSize
  cases (options.blksize.bind parseInt).filter isFinite with
  | none => decide
  | some blksize =>
    show 0 < (max 8 (min 65464 blksize)).toNat
    omega

section Start

variable (limit : ℕ) (options : Options) (file : Buffer)

/-- The session that has read a file, before it sends anything. -/
def opened : Session where
  kind := .read
  maxRetries := limit
  blockSize := (negotiateBlockSize options).getD 512
  fileBuffer := file
  totalSize := file.length
  finalBlock := file.length / (negotiateBlockSize options).getD 512 + 1

def accepted : List (String × String) :=
  (negotiateOptions { kind := .read, maxRetries := limit, fileBuffer := file
                      totalSize := file.length } options (some (toString file.length))).2

/-- The course that the download of a file is to take. -/
def plan : Plan where
  file := file
  blockSize := (negotiateBlockSize options).getD 512
  oack := buildOack (accepted limit options file)
  limit := limit
  pos := negotiateBlockSize_pos options
  opcode := by
    rw [readUInt16BE, if_pos (by simp [buildOack])]
    rfl

theorem start_session : (start limit options file).session =
    if (accepted limit options file).isEmpty then (opened limit options file).sendDataBlock 1
    else { opened limit options file with expectOackAck := true }.sendPacket
      (buildOack (accepted limit options file)) := rfl

theorem at_transmit (hn : n ≤ 1) (hs : Sends s p) (hlog : s.log = [])
    (hexpect : s.expectOackAck = decide (n = 0)) (hnum : s.blockNumber = n) :
    ({ session := s.transmit (p.packet n) } : Download).At p n 0 := by
  refine ⟨{ hs with }, rfl, hexpect, hnum, rfl, hn.trans (Nat.succ_pos _), Nat.zero_le n, hn, ?_⟩
  have hquiet : ({ session := s } : Download).Sent p n 0 := by
    refine ⟨rfl, fun packet hpkt => ?_, nofun⟩
    change packet ∈ filterMap Output.packet? s.log at hpkt
    rw [hlog] at hpkt
    cases hpkt
  exact hquiet.send le_rfl rfl

theorem start_at : ∃ n ≤ 1, (start limit options file).At (plan limit options file) n 0 ∧
    (start limit options file).session.retries = 0 := by
  have hs : Sends (opened limit options file) (plan limit options file) :=
    ⟨rfl, rfl, rfl, rfl, rfl, rfl, rfl⟩
  have hsess := start_session limit options file
  have hstart : start limit options file = { session := (start limit options file).session } := rfl
  rw [hstart, hsess]
  by_cases hempty : (accepted limit options file).isEmpty = true
  · rw [if_pos hempty, sendDataBlock_eq hs]
    exact ⟨1, le_rfl, at_transmit le_rfl { hs with } rfl rfl rfl, rfl⟩
  · rw [if_neg hempty]
    exact ⟨0, Nat.zero_le 1, at_transmit (s := { opened limit options file with
      expectOackAck := true }) (Nat.zero_le 1) { hs with } rfl rfl rfl, rfl⟩

end Start

variable (policy : Policy)

/-- Enough fair rounds deliver a file with fewer than `2 ^ 16` blocks. -/
theorem delivered_of_fair (hcount : p.count < 2 ^ 16) (h : d.Rank p n)
    (hretr : d.session.retries = 0) (hjoin : joined = false → 1 ≤ n)
    (hfair : Fair p.limit joined 0 rs) (hlen : (p.count + 2) * (p.limit + 1) ≤ rs.length) :
    (d.rounds policy rs).Delivered p.file := by
  obtain ⟨m, hrank, _⟩ := h.rounds hcount policy (fun _ => hretr.le) hjoin hfair
  have hmany := length_le_of_fair hfair (Nat.zero_le _)
  have hthro : p.count + 1 ≤ rs.countP fun r => r.through.isSome := by
    by_contra hfew
    have hmul := Nat.mul_le_mul_right (p.limit + 1)
      (show (rs.countP fun r => r.through.isSome) ≤ p.count by omega)
    rw [Nat.add_mul] at hlen
    omega
  cases hrank with
  | waiting hat =>
    have hle_count := hat.le_count
    omega
  | completed hdone => exact hdone.delivered

/-! ## Files with too many blocks -/

/-- No acknowledgement has the number of the last block. -/
structure Endless (s : Session) : Prop where
  kind : s.kind = .read
  final : 2 ^ 16 ≤ s.finalBlock
  status : s.status ≠ .completed

namespace Endless

variable (h : Endless s)
include h

theorem cleanup : Endless s.fail := by
  unfold fail Session.cleanup
  split
  · exact ⟨h.kind, h.final, nofun⟩
  · exact h

theorem sendDataBlock (n : ℕ) : Endless (s.sendDataBlock n) := by
  unfold Session.sendDataBlock sendPacket
  split
  · exact { h with }
  · exact { h with }

theorem handleReadAck (msg : Buffer) : Endless (s.handleReadAck msg) := by
  unfold Session.handleReadAck
  split
  · exact h
  · rename_i acked hacked
    have hlt : acked < 2 ^ 16 := by
      unfold blockOf at hacked
      split at hacked
      · exact readUInt16BE_lt hacked
      · cases hacked
    have hfinal := h.final
    have hoack : Endless s.acceptOack := { h with }
    have hack : Endless s.acceptAck := { h with }
    split
    · split
      · exact hoack.sendDataBlock 1
      · exact h
    · split
      · exact h
      · rw [if_neg (by omega)]
        exact hack.sendDataBlock _

theorem message (msg : Buffer) : Endless (s.step (.message msg)) := by
  show Endless (s.onSocketMessage msg)
  unfold onSocketMessage
  split
  · split
    · exact h
    · split
      · exact h.cleanup
      · rw [h.kind]
        exact h.handleReadAck msg
  · exact h

theorem timeout : Endless (s.step .timeout) := by
  unfold step
  dsimp only
  split
  · unfold onTimeout
    split
    · split
      · exact h.cleanup
      · split
        · exact { h with }
        · exact { h with }
    · exact h
  · exact h

end Endless

/-- What every message and the timer keep is kept in every round. -/
theorem delivers_induct (hmsg : ∀ s msg, P s → P (s.step (.message msg))) (h : P d.session)
    (deliveries : List Delivery) : P (d.delivers policy deliveries).session := by
  refine foldlRecOn (motive := fun d : Download => P d.session) deliveries _ h
    fun d h delivery _ => ?_
  cases delivery with
  | toClient i =>
    show P ((d.packets[i]?).elim d _).session
    cases d.packets[i]? with
    | none => exact h
    | some _ => exact h
  | toSession i =>
    show P ((d.answers[i]?).elim d d.toSession).session
    cases d.answers[i]? with
    | none => exact h
    | some answer => exact hmsg _ answer h

theorem rounds_induct (hmsg : ∀ s msg, P s → P (s.step (.message msg)))
    (htime : ∀ s, P s → P (s.step .timeout)) (h : P d.session)
    (rs : List Round) : P (d.rounds policy rs).session := by
  refine foldlRecOn (motive := fun d : Download => P d.session) rs _ h fun d h r _ => ?_
  have hnoise := delivers_induct policy hmsg h r.noise
  unfold round
  dsimp only
  split
  · rename_i between _
    unfold exchange
    split
    · exact hnoise
    · rename_i packet _
      have hcli : P ((d.delivers policy r.noise).toClient policy packet).session := hnoise
      have hbtw := delivers_induct policy hmsg hcli between
      cases ((d.delivers policy r.noise).client.answer policy
        (d.delivers policy r.noise).session.blockSize packet).2 with
      | none => exact hbtw
      | some answer => exact hmsg _ answer hbtw
  · exact htime _ hnoise

theorem At.not_delivered_of_count (h : d.At p n c) (hcount : 2 ^ 16 ≤ p.count)
    (rs : List Round) (file : Buffer) : ¬ (d.rounds policy rs).Delivered file := by
  have hendl : Endless d.session := by
    refine ⟨h.sends.kind, h.sends.final ▸ hcount, ?_⟩
    rw [of_decide_eq_true h.sends.isOpen]
    decide
  exact fun hdeliv => (rounds_induct policy (fun _ msg h => h.message msg)
    (fun _ h => h.timeout) hendl rs).status hdeliv.completed

theorem not_delivered_of_failed (h : d.session.status = .error) (rs : List Round)
    (file : Buffer) : ¬ (d.rounds policy rs).Delivered file := by
  have hstep : ∀ (s : Session) event, s.status = .error →
      (s.step event).status = .error := by
    intro s event hs
    have hcl : s.isOpen = false := by
      unfold Session.isOpen
      rw [hs]
      rfl
    obtain ⟨_, hpend⟩ := step_of_closed hcl event
    rw [hpend]
    exact hs
  intro hdeliv
  have hfld := rounds_induct policy
    (fun s msg => hstep s _) (fun s => hstep s .timeout) h rs
  rw [hdeliv.completed] at hfld
  cases hfld

/-! ## Options that are acknowledged late -/

/-- A round in which nothing arrives. -/
def lostRound : Round := ⟨[], none⟩

/-- A round in which nothing but the exchange takes place. -/
def plainRound : Round := ⟨[], some []⟩

theorem At.rounds_lost (h : d.At p n c) (hk : d.session.retries + k ≤ p.limit) :
    (d.rounds policy (List.replicate k lostRound)).At p n c ∧
      (d.rounds policy (List.replicate k lostRound)).session.retries = d.session.retries + k := by
  induction k generalizing d with
  | zero => exact ⟨h, rfl⟩
  | succ k ih =>
    obtain ⟨next, hnext, hat, _⟩ := h.timeout (by omega)
    have hround : d.round policy lostRound = next := hnext
    show (rounds policy (d.round policy lostRound) _).At p n c ∧
      (rounds policy (d.round policy lostRound) _).session.retries = _
    rw [hround]
    obtain ⟨hlast, _⟩ := ih hat (by omega)
    exact ⟨hlast, by omega⟩

/-- The acknowledgement of the options does not give the retries back. -/
theorem At.round_oack (h : d.At p 0 0) (hcount : p.count < 2 ^ 16) :
    (d.round policy plainRound).At p 1 0 ∧
      (d.round policy plainRound).session.retries = d.session.retries := by
  have hcli := h.toClient hcount policy le_rfl
  have hround : d.round policy plainRound =
      { d.toClient policy (p.packet 0) with session := d.session.acceptOack.sendDataBlock 1 } := by
    show d.exchange policy _ = _
    unfold exchange
    rw [h.last]
    dsimp only
    rw [h.sends.blockSize, p.answer_packet_zero]
    have hstep := step_ack h.sends (show 0 < 2 ^ 16 by decide)
    rw [h.expect] at hstep
    exact congrArg (fun s => { d.toClient policy _ with session := s }) hstep
  rw [hround]
  exact ⟨hcli.next rfl (Nat.succ_pos _) h.sends.acceptOack rfl rfl,
    retries_sendDataBlock h.sends.acceptOack 0⟩

theorem At.timeout_fails (h : d.At p n c) (hretr : d.session.retries = p.limit) :
    (d.round policy lostRound).session.status = .error := by
  show (d.session.step .timeout).status = _
  rw [step, if_pos h.timer, onTimeout, if_pos h.sends.isOpen,
    if_pos (by rw [h.sends.limit, hretr]), fail, Session.cleanup, if_pos h.sends.isOpen]

theorem fair_replicate_lost (hk : lost + k ≤ limit) (h : Fair limit joined (lost + k) rs) :
    Fair limit joined lost (List.replicate k lostRound ++ rs) := by
  induction k generalizing lost with
  | zero => exact h
  | succ k ih =>
    refine ⟨by omega, ih (by omega) ?_⟩
    rwa [show lost + 1 + k = lost + (k + 1) by omega]

theorem fair_replicate_plain (limit : ℕ) (joined : Bool) (lost k : ℕ) :
    Fair limit joined lost (List.replicate k plainRound) := by
  induction k generalizing joined lost with
  | zero => trivial
  | succ k ih => exact ih false _

/-- Fair rounds in which the options are acknowledged at the last moment, and the first block is
then lost once. -/
def lateRounds (limit k : ℕ) : List Round :=
  List.replicate limit lostRound ++ ([plainRound, lostRound] ++ List.replicate k plainRound)

theorem fair_lateRounds (hlimit : 0 < limit) (k : ℕ) : Fair limit false 0 (lateRounds limit k) := by
  refine fair_replicate_lost (by omega) ?_
  exact ⟨hlimit, fair_replicate_plain limit false 1 k⟩

theorem At.not_delivered (h : d.At p 0 0) (hcount : p.count < 2 ^ 16)
    (hretr : d.session.retries = 0) (k : ℕ) (file : Buffer) :
    ¬ (d.rounds policy (lateRounds p.limit k)).Delivered file := by
  obtain ⟨hat, _⟩ := h.rounds_lost policy (show d.session.retries + p.limit ≤ p.limit by omega)
  obtain ⟨hat', _⟩ := hat.round_oack policy hcount
  have hfld := hat'.timeout_fails policy (by omega)
  unfold lateRounds rounds
  rw [foldl_append]
  exact not_delivered_of_failed policy hfld _ file

theorem fair_joined (h : Fair 0 false 0 rs) : Fair 0 true 0 rs := by
  cases rs with
  | nil => trivial
  | cons r _ =>
    unfold Fair at h ⊢
    split
    · rename_i hr
      rw [if_pos hr] at h
      exact h
    · rename_i hr
      rw [if_neg hr] at h
      exact absurd h.1 (Nat.lt_irrefl 0)

/-! ## Downloads of all files -/

/-- All fair rounds deliver the file exactly if it has fewer than `2 ^ 16` blocks, and no options
are acknowledged or there are no retries. Rounds that are fair with the first two exchanges counted
together deliver every file with fewer than `2 ^ 16` blocks. -/
theorem delivers_file (policy : Policy) (limit : ℕ) (options : Options) (file : Buffer) :
    let d := start limit options file
    let count := blockCount d.session file
    ((∀ rs, Fair limit false 0 rs → (count + 2) * (limit + 1) ≤ rs.length →
        (d.rounds policy rs).Delivered file) ↔
      count < 2 ^ 16 ∧ (d.session.expectOackAck = false ∨ limit = 0)) ∧
    (count < 2 ^ 16 → ∀ rs, Fair limit true 0 rs → (count + 2) * (limit + 1) ≤ rs.length →
      (d.rounds policy rs).Delivered file) := by
  intro d count
  obtain ⟨n, -, hat, hretr⟩ := start_at limit options file
  have hcount : count = (plan limit options file).count := by
    show file.length / d.session.blockSize + 1 = _
    rw [hat.sends.blockSize]
    rfl
  have hexpect : d.session.expectOackAck = decide (n = 0) := hat.expect
  have hjoin : count < 2 ^ 16 → ∀ rs, Fair limit true 0 rs →
      (count + 2) * (limit + 1) ≤ rs.length → (d.rounds policy rs).Delivered file := by
    rw [hcount]
    intro hlt rs hfair hlen
    exact delivered_of_fair policy hlt (.waiting hat) hretr (fun h => by cases h) hfair hlen
  refine ⟨⟨fun hall => ?_, fun hcond rs hfair hlen => ?_⟩, hjoin⟩
  · have hplain := hall _
      (fair_replicate_plain limit false 0 _) (by rw [length_replicate])
    have hlt : count < 2 ^ 16 := by
      by_contra hge
      exact hat.not_delivered_of_count policy (by omega) _ file hplain
    refine ⟨hlt, ?_⟩
    by_contra hneit
    rw [not_or, hexpect] at hneit
    have hzero : n = 0 := by simpa using hneit.1
    subst hzero
    refine hat.not_delivered policy (hcount ▸ hlt) hretr ((count + 2) * (limit + 1)) file
      (hall _ (fair_lateRounds (Nat.pos_of_ne_zero hneit.2) _) ?_)
    simp only [lateRounds, length_append, length_replicate]
    omega
  · obtain ⟨hlt, hoack | rfl⟩ := hcond
    · have hpos : n ≠ 0 := by
        rw [hexpect] at hoack
        exact of_decide_eq_false hoack
      rw [hcount] at hlt hlen
      exact delivered_of_fair policy hlt (.waiting hat) hretr (fun _ => by omega) hfair hlen
    · exact hjoin hlt rs (fair_joined hfair) hlen

/-- A client that acknowledges all data. -/
def eager : Policy := fun _ _ => true

/-- A download with an acknowledgement of options fails although no packet is lost twice in a row,
and a file with `2 ^ 16` blocks is never delivered. -/
theorem download_fails :
    (Fair 1 false 0 (lateRounds 1 5) ∧
      ((start 1 { blksize := some "8" } [1, 2, 3]).rounds eager (lateRounds 1 5)).session.status =
        .error) ∧
    ∀ rs, ¬ ((start 5 {} (List.replicate (512 * 65535) 0)).rounds eager rs).Delivered
      (List.replicate (512 * 65535) 0) := by
  refine ⟨⟨fair_lateRounds (by decide) 5, by decide +kernel⟩, fun rs => ?_⟩
  obtain ⟨n, -, hat, -⟩ := start_at 5 {} (List.replicate _ 0)
  have hcount : ∀ file, (plan 5 {} file).count = file.length / 512 + 1 := fun _ => rfl
  refine hat.not_delivered_of_count eager ?_ rs _
  rw [hcount, length_replicate]
  decide

/-- The first packet is lost, and packets arrive twice. -/
def sampleRounds : List Round :=
  [lostRound, plainRound, ⟨[.toClient 0, .toSession 0], some [.toClient 1]⟩] ++
    List.replicate 5 plainRound

theorem delivers_file_twoBlocks :
    Fair 1 true 0 sampleRounds ∧
      ((start 1 { blksize := some "8" } [1, 2, 3, 4, 5, 6, 7, 8, 9]).rounds eager
        sampleRounds).Delivered [1, 2, 3, 4, 5, 6, 7, 8, 9] := by
  have hfair : Fair 1 true 0 sampleRounds :=
    ⟨Nat.one_pos, fair_replicate_plain 1 false 0 5⟩
  exact ⟨hfair, (delivers_file eager 1 { blksize := some "8" } [1, 2, 3, 4, 5, 6, 7, 8, 9]).2
    (by decide +kernel) sampleRounds hfair (by decide +kernel)⟩

end Download

end Tftp
