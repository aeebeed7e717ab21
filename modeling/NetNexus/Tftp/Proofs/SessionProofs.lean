import NetNexus.Node.Proofs.NumberProofs
import NetNexus.Node.Proofs.PathProofs
import NetNexus.Tftp.Path

/-!
# TFTP requests and sessions

The path of a request leads below the root, the numbers of a packet are read as they were written,
and a session that has ended does nothing any more. Uploads and downloads build on these.
-/

namespace Tftp

open List Node Session

/-! ## Paths -/

section

open Node.Path

/-- The path of a request leads below the root. -/
theorem within_of_resolveSafePath {c : Config} {filename target : Text}
    (h : c.resolveSafePath filename = some target) : Within c.cwd c.rootDir target := by
  unfold Config.resolveSafePath at h
  dsimp only at h
  split at h
  · contradiction
  · rename_i hsafe
    rw [not_or, not_or] at hsafe
    have hpre := isPrefix_of_relative hsafe.2.1
    rw [segments_resolve_singleton, walk_of_not_mem (parent_not_mem_place c.cwd c.rootDir)] at hpre
    rw [Option.some.injEq] at h
    rw [← h]
    exact hpre

theorem within_of_requestPath {c : Config} {kind : Kind} {filename path : Text}
    (h : c.requestPath kind filename = .ok path) : Within c.cwd c.rootDir path := by
  have hsafe : c.resolveSafePath filename = some path := by
    cases kind <;>
    · unfold Config.requestPath at h
      dsimp only at h
      split at h
      · cases h
      · split at h
        · rename_i heq
          rw [heq, Except.ok.inj h]
        · cases h
  exact within_of_resolveSafePath hsafe

end

/-! ## Packets -/

theorem blockOf_append (opcode : Opcode) {code block : ℕ} (hcode : code < 2 ^ 16)
    (hblock : block < 2 ^ 16) (data : Buffer) :
    blockOf opcode (uint16be code ++ uint16be block ++ data) =
      if code = opcode.code then some block else none := by
  have hopcode : readUInt16BE (uint16be code ++ uint16be block ++ data) 0 = some code :=
    congrArg some (ofBytes_uint16be hcode)
  have hnum : readUInt16BE (uint16be code ++ uint16be block ++ data) 2 = some block :=
    congrArg some (ofBytes_uint16be hblock)
  unfold blockOf
  rw [hopcode, hnum]
  simp

theorem blockOf_buildData {n : ℕ} (h : n < 2 ^ 16) (data : Buffer) :
    blockOf .data (buildData n data) = some n := by
  unfold buildData
  rw [Nat.mod_eq_of_lt h, blockOf_append .data (by decide) h, if_pos rfl]

theorem blockOf_buildAck {n : ℕ} (h : n < 2 ^ 16) : blockOf .ack (buildAck n) = some n := by
  have happ := blockOf_append .ack (show Opcode.ack.code < 2 ^ 16 by decide) h []
  unfold buildAck
  rwa [Nat.mod_eq_of_lt h]

theorem drop_buildData (n : ℕ) (data : Buffer) : (buildData n data).drop 4 = data := rfl

/-! ## Open and closed sessions -/

namespace Session

theorem sendPacket_of_open {s : Session} (h : s.isOpen = true) (packet : Buffer) :
    s.sendPacket packet = s.transmit packet := if_pos h

section Closed

variable {s : Session} (h : s.isOpen = false)
include h

theorem cleanup_of_closed (status : Status) : s.cleanup status = s := by
  unfold cleanup
  rw [h]
  rfl

theorem sendError_of_closed (code : ErrorCode) (message : String) :
    s.sendError code message = s := by
  unfold sendError
  rw [h]
  rfl

theorem onWritten_of_closed (content : Buffer) (lastBlock : ℕ) (result : Option WriteError) :
    s.onWritten content lastBlock result = s := by
  unfold onWritten
  split
  · exact sendError_of_closed h ..
  · exact sendError_of_closed h ..
  · rw [h]
    rfl

theorem callback_of_closed (result : Option WriteError) (operation : Callback) :
    s.callback result operation = s := by
  cases operation with
  | written content lastBlock => exact onWritten_of_closed h content lastBlock result
  | complete => exact cleanup_of_closed h .completed
  | fail => exact cleanup_of_closed h .error

/-- Only operations end in a session that has ended. -/
theorem step_of_closed (event : Event) :
    ∃ pending, s.step event = { s with pending := pending } := by
  cases event with
  | message msg =>
    refine ⟨s.pending, ?_⟩
    show s.onSocketMessage msg = s
    unfold onSocketMessage
    rw [h]
    rfl
  | timeout =>
    refine ⟨s.pending, ?_⟩
    show (if s.timer then s.onTimeout else s) = s
    unfold onTimeout
    rw [h]
    exact ite_self s
  | done i result =>
    unfold step
    dsimp only
    split
    · rename_i operation _
      have hcl : { s with pending := s.pending.eraseIdx i }.isOpen = false := h
      exact ⟨s.pending.eraseIdx i, callback_of_closed hcl result operation⟩
    · exact ⟨s.pending, rfl⟩

end Closed

end Session

end Tftp
