import NetNexus.Tftp.Proofs.SessionProofs
import NetNexus.Tftp.Transfer

/-!
# An upload is stored before it is confirmed

As long as nothing arrives that concerns a finished upload, the file is written once, with the
blocks that have been received, and confirmed afterwards.
-/

namespace Tftp

open List Node Session

namespace Upload

/-! ## The phases of an upload -/

/-- Blocks are still missing. -/
structure Receiving (u : Upload) : Prop where
  unfinished : u.receiver.finished = false
  chunks : u.session.writeChunks = u.receiver.blocks
  number : u.session.blockNumber = u.receiver.last
  idle : u.session.pending = []
  unwritten : writes u.session = []

/-- The last block has arrived: the file is being written, the last acknowledgement or an error is
being sent. -/
structure Flushing (u : Upload) : Prop where
  finished : u.receiver.finished = true
  number : u.session.blockNumber = u.receiver.last
  quiet : u.session.timer = false
  written : writes u.session = [u.receiver.blocks.flatten]
  busy : u.session.pending = [.written u.receiver.blocks.flatten u.receiver.last] ∨
    u.session.pending = [.complete] ∧ u.stored = true ∨ u.session.pending = [.fail]

/-- The session has ended, and has written what had been received or nothing. -/
structure Ended (u : Upload) : Prop where
  closed : u.session.isOpen = false
  written : writes u.session = [] ∨
    u.receiver.finished = true ∧ writes u.session = [u.receiver.blocks.flatten]

/-- The phase an upload is in. -/
inductive Phase (u : Upload) : Prop
  | receiving (hopen : u.session.isOpen = true) (h : u.Receiving)
  | flushing (hopen : u.session.isOpen = true) (h : u.Flushing)
  | ended (h : u.Ended)

theorem Phase.written {u : Upload} (h : u.Phase) : writes u.session = [] ∨
    u.receiver.finished = true ∧ writes u.session = [u.receiver.blocks.flatten] := by
  cases h with
  | receiving _ h => exact .inl h.unwritten
  | flushing _ h => exact .inr ⟨h.finished, h.written⟩
  | ended h => exact h.written

/-! ## What a step does -/

/-- The step logs these outputs. -/
def Adds (u : Upload) (event : Event) (outputs : List Output) : Prop :=
  (u.step event).session.log = u.session.log ++ outputs

variable {s : Session} {u : Upload} {event : Event} {outputs : List Output}

theorem adds_of_step (hstep : u.session.step event = s) (hlog : s.log = u.session.log ++ outputs) :
    u.Adds event outputs :=
  (congrArg Session.log hstep).trans hlog

theorem writes_append {t : Session} (h : t.log = s.log ++ outputs) :
    writes t = writes s ++ outputs.filterMap Output.file? := by
  unfold writes
  rw [h, filterMap_append]

theorem receive_of_finished {r : Receiver} (h : r.finished = true) (blockSize block : ℕ)
    (data : Buffer) : r.receive blockSize block data = r := by
  unfold Receiver.receive
  rw [if_neg]
  rintro ⟨hfalse, -⟩
  rw [h] at hfalse
  cases hfalse

theorem receiver_step_of_finished (h : u.receiver.finished = true) (event : Event) :
    (u.step event).receiver = u.receiver := by
  unfold step
  split
  · split
    · exact receive_of_finished h ..
    · rfl
  · rfl

/-- A step of an upload: where it is then, and that it confirms nothing that is not stored. -/
structure Goes (u : Upload) (event : Event) : Prop where
  phase : (u.step event).Phase
  kind : (u.step event).session.kind = u.session.kind
  confirms : (u.step event).receiver.finished = true → (u.step event).stored = false →
    ∃ outputs, u.Adds event outputs ∧ ∀ n, .send (buildAck n) ∉ outputs

theorem Ended.goes (h : u.Ended) (event : Event) : u.Goes event := by
  obtain ⟨pending, hstep⟩ := step_of_closed h.closed event
  have hsess : (u.step event).session = { u.session with pending := pending } := hstep
  have hwrites : writes (u.step event).session = writes u.session := by rw [hsess]; rfl
  refine ⟨.ended ⟨by rw [hsess]; exact h.closed, ?_⟩, by rw [hsess], fun _ _ => ⟨[], ?_, ?_⟩⟩
  · rw [hwrites]
    refine h.written.imp_right fun hwr => ?_
    rw [receiver_step_of_finished hwr.1]
    exact hwr
  · unfold Adds
    rw [hsess, append_nil]
  · exact fun _ => not_mem_nil

theorem goes_of_cleanup (hphase : u.Phase) (hopen : s.isOpen = true) (hlog : s.log = u.session.log)
    (hkind : s.kind = u.session.kind) (status : Status) (hstat : status ≠ .transferring)
    (hstep : u.session.step event = s.cleanup status)
    (hrecv : (u.step event).receiver = u.receiver) : u.Goes event := by
  have hsess : (u.step event).session =
      { s with status := status, timer := false, fileBuffer := [], writeChunks := [] } := by
    show u.session.step event = _
    rw [hstep, cleanup, if_pos hopen]
  have hwrites : writes (u.step event).session = writes u.session := by
    unfold writes
    rw [hsess]
    rw [hlog]
  refine ⟨.ended ⟨?_, ?_⟩, by rw [hsess]; exact hkind, fun _ _ => ⟨[], ?_, ?_⟩⟩
  · rw [hsess]
    exact decide_eq_false hstat
  · rw [hwrites, hrecv]
    exact hphase.written
  · unfold Adds
    rw [hsess, append_nil]
    exact hlog
  · exact fun _ => not_mem_nil

theorem goes_of_same (hphase : u.Phase) (hstep : u.session.step event = u.session)
    (hrecv : (u.step event).receiver = u.receiver)
    (hstores : stores u.session event = false) : u.Goes event := by
  have hsame : u.step event = u := by
    show Upload.mk _ (u.step event).receiver _ = u
    rw [hstep, hrecv, hstores, Bool.or_false]
  refine ⟨hsame.symm ▸ hphase, by rw [hsame], fun _ _ => ⟨[], ?_, fun _ => not_mem_nil⟩⟩
  unfold Adds
  rw [hsame, append_nil]

theorem goes_of_receiving (hstep : u.session.step event = s) (hopen : s.isOpen = true)
    (hkind : s.kind = u.session.kind) (hlog : s.log = u.session.log ++ outputs)
    (hfiles : outputs.filterMap Output.file? = []) (hunwr : writes u.session = [])
    (hunfi : (u.step event).receiver.finished = false)
    (hchs : s.writeChunks = (u.step event).receiver.blocks)
    (hnum : s.blockNumber = (u.step event).receiver.last) (hidle : s.pending = []) :
    u.Goes event := by
  have hwr := writes_append (adds_of_step hstep hlog)
  rw [hunwr, hfiles] at hwr
  obtain rfl : (u.step event).session = s := hstep
  refine ⟨.receiving hopen ⟨hunfi, hchs, hnum, hidle, hwr⟩, hkind,
    fun hfin => ?_⟩
  rw [hunfi] at hfin
  cases hfin

variable {msg : Buffer}

/-- A message without data does nothing or ends the session. -/
theorem message_of_blockOf_eq_none (hopen : s.isOpen = true) (hkind : s.kind = .write)
    (h : blockOf .data msg = none) :
    s.step (.message msg) = s ∨ s.step (.message msg) = s.fail := by
  show s.onSocketMessage msg = s ∨ s.onSocketMessage msg = _
  unfold onSocketMessage
  rw [if_pos hopen]
  split
  · exact .inl rfl
  · split
    · exact .inr rfl
    · rw [hkind]
      unfold handleWriteData
      rw [h]
      exact .inl rfl

variable {block : ℕ}

theorem message_of_blockOf_eq_some (hopen : s.isOpen = true) (hkind : s.kind = .write)
    (h : blockOf .data msg = some block) : s.step (.message msg) = s.handleWriteData msg := by
  have hopcode : readUInt16BE msg 0 = some Opcode.data.code := by
    unfold blockOf at h
    split at h
    · assumption
    · cases h
  show s.onSocketMessage msg = _
  unfold onSocketMessage
  rw [if_pos hopen, hopcode, hkind]
  rfl

theorem receiver_message (h : blockOf .data msg = some block) : (u.step (.message msg)).receiver =
    u.receiver.receive u.session.blockSize block (msg.drop 4) := by
  unfold step
  dsimp only
  rw [h]

theorem receiver_message_of_none (h : blockOf .data msg = none) :
    (u.step (.message msg)).receiver = u.receiver := by
  unfold step
  dsimp only
  rw [h]

theorem goes_message_of_none (hphase : u.Phase) (hopen : u.session.isOpen = true)
    (hkind : u.session.kind = .write) (h : blockOf .data msg = none) : u.Goes (.message msg) := by
  have hrecv := receiver_message_of_none (u := u) h
  rcases message_of_blockOf_eq_none hopen hkind h with hsame | hfail
  · exact goes_of_same hphase hsame hrecv rfl
  · exact goes_of_cleanup hphase hopen rfl rfl .error (by decide) hfail hrecv

/-- The timer sends the last packet again or ends the session. -/
theorem onTimeout_cases (hopen : s.isOpen = true) : s.onTimeout = s.fail ∨ ∃ outputs : List Output,
    s.onTimeout = { s with retries := s.retries + 1, timer := true, log := s.log ++ outputs } ∧
      outputs.filterMap Output.file? = [] := by
  unfold onTimeout
  rw [if_pos hopen]
  split
  · exact .inl rfl
  · refine .inr ?_
    split
    · rename_i packet _
      exact ⟨[.send packet], rfl, rfl⟩
    · exact ⟨[], by rw [append_nil], rfl⟩

theorem step_done_zero {operation : Callback} (h : s.pending = [operation])
    (result : Option WriteError) :
    s.step (.done 0 result) = { s with pending := [] }.callback result operation := by
  unfold Session.step
  rw [h]
  rfl

/-- No operation with the number is in flight. -/
theorem goes_done_of_none (hphase : u.Phase) {i : ℕ} (h : u.session.pending[i]? = none)
    (result : Option WriteError) : u.Goes (.done i result) := by
  have hstep : u.session.step (.done i result) = u.session := by
    unfold Session.step
    dsimp only
    rw [h]
  have hstores : stores u.session (.done i result) = false := by
    unfold stores
    split
    · rename_i heq
      cases heq
      rw [h]
      rfl
    · rfl
  exact goes_of_same hphase hstep rfl hstores

namespace Receiving

variable (h : u.Receiving) (hopen : u.session.isOpen = true)
include h hopen

theorem goes_timeout : u.Goes .timeout := by
  have hrecv : (u.step .timeout).receiver = u.receiver := rfl
  by_cases htimer : u.session.timer = true
  · have hstep : u.session.step .timeout = u.session.onTimeout := if_pos htimer
    rcases onTimeout_cases hopen with hfail | ⟨_, hagain, hfiles⟩
    · exact goes_of_cleanup (.receiving hopen h) hopen rfl rfl .error (by decide)
        (hstep.trans hfail) hrecv
    · exact goes_of_receiving (hstep.trans hagain) hopen rfl rfl hfiles h.unwritten h.unfinished
        h.chunks h.number h.idle
  · exact goes_of_same (.receiving hopen h) (if_neg htimer) rfl rfl

variable (hkind : u.session.kind = .write)
include hkind

theorem goes_data (hblock : blockOf .data msg = some block) : u.Goes (.message msg) := by
  have hrecv := receiver_message (u := u) hblock
  have hstep := message_of_blockOf_eq_some hopen hkind hblock
  have hnext : (u.session.blockNumber + 1) % 2 ^ 16 =
      (u.receiver.blocks.length + 1) % 2 ^ 16 := by
    rw [h.number, Receiver.last, Nat.mod_add_mod]
  unfold handleWriteData at hstep
  rw [hblock] at hstep
  dsimp only at hstep
  unfold Receiver.receive at hrecv
  by_cases hexp : block = (u.session.blockNumber + 1) % 2 ^ 16
  · rw [if_pos hexp] at hstep
    rw [if_pos ⟨h.unfinished, hexp.trans hnext⟩] at hrecv
    have hlast : (u.step (.message msg)).receiver.last = block := by
      rw [hrecv, Receiver.last, length_append, length_singleton, hexp, hnext]
    have hchs : (u.session.writeChunks ++ [msg.drop 4]).flatten =
        (u.step (.message msg)).receiver.blocks.flatten := by
      rw [hrecv, h.chunks]
    by_cases hshort : (msg.drop 4).length < u.session.blockSize
    · -- the last block
      rw [if_pos hshort] at hstep
      have hsess : (u.step (.message msg)).session =
          (u.session.accept block (msg.drop 4)).flushWriteFile block := hstep
      have hadds : u.Adds (.message msg)
          [.writeFile (u.session.writeChunks ++ [msg.drop 4]).flatten] := adds_of_step hstep rfl
      refine ⟨.flushing (by rw [hsess]; exact hopen) ⟨?_, ?_, ?_, ?_, .inl ?_⟩,
        by rw [hsess]; rfl, fun _ _ => ⟨_, hadds, ?_⟩⟩
      · rw [hrecv]
        exact decide_eq_true hshort
      · rw [hlast, hsess]
        rfl
      · rw [hsess]
        rfl
      · rw [writes_append hadds, h.unwritten, hchs]
        rfl
      · rw [hlast, ← hchs, hsess]
        show u.session.pending ++ _ = _
        rw [h.idle]
        rfl
      · intro n hmem
        cases mem_singleton.mp hmem
    · rw [if_neg hshort] at hstep
      have haccept : (u.session.accept block (msg.drop 4)).isOpen = true := hopen
      refine goes_of_receiving (hstep.trans (sendPacket_of_open haccept _)) hopen rfl rfl rfl
        h.unwritten ?_ ?_ hlast.symm h.idle
      · rw [hrecv]
        exact decide_eq_false hshort
      · rw [hrecv, ← h.chunks]
        rfl
  · rw [if_neg hexp] at hstep
    rw [if_neg fun hboth => hexp (hboth.2.trans hnext.symm)] at hrecv
    by_cases hagain : block = u.session.blockNumber
    · rw [if_pos hagain] at hstep
      refine goes_of_receiving hstep hopen rfl rfl rfl h.unwritten ?_ ?_ ?_ h.idle <;> rw [hrecv]
      exacts [h.unfinished, h.chunks, h.number]
    · rw [if_neg hagain] at hstep
      exact goes_of_same (.receiving hopen h) hstep hrecv rfl

theorem goes (event : Event) : u.Goes event := by
  cases event with
  | message msg =>
    cases hblock : blockOf .data msg with
    | none => exact goes_message_of_none (.receiving hopen h) hopen hkind hblock
    | some _ => exact h.goes_data hopen hkind hblock
  | timeout => exact h.goes_timeout hopen
  | done i result =>
    refine goes_done_of_none (.receiving hopen h) ?_ result
    rw [h.idle]
    rfl

end Receiving

/-! ## After the last block -/

theorem buildError_ne_buildAck (code : ErrorCode) (message : String) (n : ℕ) :
    buildError code message ≠ buildAck n := by
  intro h
  have hhead := congrArg (fun bytes => bytes[1]?) h
  simp [buildError, buildAck, uint16be, Opcode.code] at hhead

namespace Flushing

variable (h : u.Flushing) (hopen : u.session.isOpen = true)
include h hopen

theorem goes_of_sent {pending : List Callback} {totalSize : ℕ} (hstep : u.session.step event =
      { u.session with
        pending := pending
        totalSize := totalSize
        log := u.session.log ++ outputs })
    (hfiles : outputs.filterMap Output.file? = [])
    (hbusy : pending = [.written u.receiver.blocks.flatten u.receiver.last] ∨
      pending = [.complete] ∧ (u.step event).stored = true ∨ pending = [.fail])
    (hconf : (u.step event).stored = false → ∀ n, .send (buildAck n) ∉ outputs) :
    u.Goes event := by
  have hrecv := receiver_step_of_finished h.finished event
  have hadds := adds_of_step hstep rfl
  have hsess : (u.step event).session = _ := hstep
  refine ⟨.flushing ?_ ⟨?_, ?_, ?_, ?_, ?_⟩, hsess ▸ rfl,
    fun _ hnot => ⟨outputs, hadds, hconf hnot⟩⟩
  · rw [hsess]
    exact hopen
  · rw [hrecv]
    exact h.finished
  · rw [hrecv, hsess]
    exact h.number
  · rw [hsess]
    exact h.quiet
  · rw [hrecv, writes_append hadds, h.written, hfiles]
    rfl
  · rw [hrecv, hsess]
    exact hbusy

theorem goes_error {code : ErrorCode} {message : String}
    (hstep : u.session.step event = { u.session with pending := [] }.sendError code message) :
    u.Goes event := by
  have hempty : { u.session with pending := [] }.isOpen = true := hopen
  rw [sendError, if_pos hempty] at hstep
  refine h.goes_of_sent hopen hstep rfl (.inr (.inr rfl)) fun _ n hmem => ?_
  exact buildError_ne_buildAck code message n (Output.send.inj (mem_singleton.mp hmem)).symm

theorem goes_written
    (hpend : u.session.pending = [.written u.receiver.blocks.flatten u.receiver.last])
    (result : Option WriteError) : u.Goes (.done 0 result) := by
  have hstep : u.session.step (.done 0 result) = { u.session with pending := [] }.onWritten
      u.receiver.blocks.flatten u.receiver.last result := step_done_zero hpend result
  cases result with
  | some error =>
    cases error with
    | enospc | _ => exact h.goes_error hopen hstep
  | none =>
    have hempty : { u.session with pending := [] }.isOpen = true := hopen
    rw [onWritten, if_pos hempty] at hstep
    have hstore : (u.step (.done 0 none)).stored = true := by
      show (u.stored || (u.session.pending[0]?).any _) = _
      rw [hpend]
      exact Bool.or_true _
    refine h.goes_of_sent hopen hstep rfl (.inr (.inl ⟨rfl, hstore⟩)) ?_
    intro hnot
    rw [hstore] at hnot
    cases hnot

theorem goes_done (i : ℕ) (result : Option WriteError) : u.Goes (.done i result) := by
  have hphase : u.Phase := .flushing hopen h
  have hempty : { u.session with pending := [] }.isOpen = true := hopen
  have hrecv := receiver_step_of_finished h.finished (.done i result)
  cases i with
  | succ i =>
    refine goes_done_of_none hphase ?_ result
    rcases h.busy with hpend | ⟨hpend, -⟩ | hpend <;>
      · rw [hpend]
        rfl
  | zero =>
    rcases h.busy with hpend | ⟨hpend, -⟩ | hpend
    · exact h.goes_written hopen hpend result
    · exact goes_of_cleanup hphase hempty rfl rfl .completed (by decide)
        (step_done_zero hpend result) hrecv
    · exact goes_of_cleanup hphase hempty rfl rfl .error (by decide)
        (step_done_zero hpend result) hrecv

/-- Data that concerns the finished upload is none behind it, and a copy of the last block only once
the file is stored. -/
theorem goes_data (hkind : u.session.kind = .write) (hblock : blockOf .data msg = some block)
    (hcalm : u.Calm (.message msg)) : u.Goes (.message msg) := by
  obtain ⟨hbehind, hcopy⟩ := hcalm hopen h.finished
  rw [hblock] at hbehind hcopy
  have hstep := message_of_blockOf_eq_some hopen hkind hblock
  unfold handleWriteData at hstep
  rw [hblock] at hstep
  dsimp only at hstep
  rw [h.number, if_neg fun heq => hbehind (congrArg some heq)] at hstep
  by_cases hlast : block = u.receiver.last
  · rw [if_pos hlast] at hstep
    have hstore : (u.step (.message msg)).stored = true :=
      (Bool.or_false _).trans (hcopy (congrArg some hlast))
    refine h.goes_of_sent hopen hstep rfl ?_ ?_
    · rw [hstore]
      exact h.busy.imp_right (Or.imp_left fun hcompl => ⟨hcompl.1, rfl⟩)
    · intro hnot
      rw [hstore] at hnot
      cases hnot
  · rw [if_neg hlast] at hstep
    exact goes_of_same (.flushing hopen h) hstep
      (receiver_step_of_finished h.finished _) rfl

theorem goes (hkind : u.session.kind = .write) (hcalm : u.Calm event) : u.Goes event := by
  cases event with
  | message msg =>
    cases hblock : blockOf .data msg with
    | none => exact goes_message_of_none (.flushing hopen h) hopen hkind hblock
    | some _ => exact h.goes_data hopen hkind hblock hcalm
  | timeout =>
    refine goes_of_same (.flushing hopen h) (if_neg ?_) rfl rfl
    rw [h.quiet]
    exact Bool.false_ne_true
  | done i result => exact h.goes_done hopen i result

end Flushing

theorem Phase.goes (h : u.Phase) (hkind : u.session.kind = .write) (hcalm : u.Calm event) :
    u.Goes event := by
  cases h with
  | receiving hopen h => exact h.goes hopen hkind event
  | flushing hopen h => exact h.goes hopen hkind hcalm
  | ended h => exact h.goes event

/-! ## Runs -/

theorem phase_start (maxRetries : ℕ) (options : Options) :
    (start maxRetries options).Phase ∧ (start maxRetries options).session.kind = .write := by
  have hsess : ∃ blockSize packet, (start maxRetries options).session =
      ({ kind := .write, maxRetries := maxRetries, blockSize := blockSize } : Session).transmit
        packet := by
    unfold start beginWrite
    dsimp only
    split
    · exact ⟨_, _, rfl⟩
    · exact ⟨_, _, rfl⟩
  obtain ⟨_, _, hsess⟩ := hsess
  refine ⟨.receiving (by rw [hsess]; rfl) ⟨rfl, ?_, ?_, ?_, ?_⟩, by rw [hsess]; rfl⟩
  all_goals
    rw [hsess]
    rfl

theorem steps_phase (h : u.Phase) (hkind : u.session.kind = .write) {events : List Event}
    (hcalm : u.CalmAlong events) :
    (u.steps events).Phase ∧ (u.steps events).session.kind = .write := by
  induction events generalizing u with
  | nil => exact ⟨h, hkind⟩
  | cons _ _ ih =>
    have hgoes := h.goes hkind hcalm.1
    exact ih hgoes.phase (hgoes.kind.trans hkind) hcalm.2

/-- In every calm run at most one file is written, with the blocks that have been received up to the
short one. It is written if the session lives when that arrives, and no step confirms the upload
before the file is stored. -/
theorem stored_before_confirmed (maxRetries : ℕ) (options : Options) (events : List Event)
    (hcalm : (start maxRetries options).CalmAlong events) :
    let u := (start maxRetries options).steps events
    (writes u.session = [] ∨
        u.receiver.finished = true ∧ writes u.session = [u.receiver.blocks.flatten]) ∧
      (u.receiver.finished = true → u.session.isOpen = true →
        writes u.session = [u.receiver.blocks.flatten]) ∧
      ∀ event, u.Calm event → (u.step event).receiver.finished = true →
        (u.step event).stored = false → ∃ outputs,
          (u.step event).session.log = u.session.log ++ outputs ∧
            .send (buildAck (u.step event).receiver.last) ∉ outputs := by
  obtain ⟨hphase, hkind⟩ := phase_start maxRetries options
  obtain ⟨hphase, hkind⟩ := steps_phase hphase hkind hcalm
  refine ⟨hphase.written, fun hfin hopen => ?_, fun event hevent hfin hstore => ?_⟩
  · cases hphase with
    | receiving _ h => exact absurd (h.unfinished.symm.trans hfin) Bool.false_ne_true
    | flushing _ h => exact h.written
    | ended h => exact absurd (h.closed.symm.trans hopen) Bool.false_ne_true
  · obtain ⟨outputs, hadds, hnone⟩ := (hphase.goes hkind hevent).confirms hfin hstore
    exact ⟨outputs, hadds, hnone _⟩

/-! ## Packets that arrive while the file is written -/

def sampleData (block : ℕ) (data : Buffer) : Event := .message (buildData block data)

/-- A copy of the last block is acknowledged while the file is being written, which then fails. -/
theorem confirmed_before_stored :
    let u := (start 5 {}).steps [sampleData 1 [7], sampleData 1 [7], .done 0 (some .enospc)]
    u.stored = false ∧ u.session.log = [.send (buildAck 0), .writeFile [7], .send (buildAck 1),
      .send (buildError .diskFull "写入文件失败")] ∧
    let v := (start 5 {}).steps [sampleData 1 [7], sampleData 2 [8]]
    v.receiver.blocks = [[7]] ∧ writes v.session = [[7], [7, 8]] := by
  decide +kernel

/-- An upload of two blocks, of which the last one is sent again after the file is stored. -/
def sampleUpload : List Event :=
  [sampleData 1 [1, 2, 3, 4, 5, 6, 7, 8], sampleData 2 [9], .done 0 none, sampleData 2 [9],
    .done 0 none]

theorem stored_before_confirmed_twoBlocks :
    (start 5 { blksize := some "8" }).CalmAlong sampleUpload ∧
      let u := (start 5 { blksize := some "8" }).steps sampleUpload
      u.session.status = .completed ∧
        (writes u.session = [] ∨
          u.receiver.finished = true ∧ writes u.session = [u.receiver.blocks.flatten]) ∧
        writes u.session = [[1, 2, 3, 4, 5, 6, 7, 8, 9]] := by
  have hcalm : (start 5 { blksize := some "8" }).CalmAlong sampleUpload := by
    refine ⟨fun _ h => ?_, fun _ h => ?_, trivial, fun _ _ => ⟨?_, fun _ => ?_⟩, trivial, trivial⟩
    · revert h
      decide +kernel
    · revert h
      decide +kernel
    · decide +kernel
    · decide +kernel
  exact ⟨hcalm, by decide +kernel,
    (stored_before_confirmed 5 { blksize := some "8" } sampleUpload hcalm).1, by decide +kernel⟩

end Upload

end Tftp
