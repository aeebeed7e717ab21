import NetNexus.Rpki.Session

/-!
# Lists of PDUs are sent in chunks

What was passed to the socket and what is collected for the next chunk are together the PDUs seen
so far. A PDU above the limit goes out alone, when nothing is collected.
-/

namespace Rpki.Sending

open List Node

/-- The first of `pdus` were passed on in whole, and all but the chunk unless a write failed. -/
structure Sends (good : Prop) (pdus : List Buffer) (result : Bool × Sending) : Prop where
  succeeds : good → result.1 = true
  all : result.1 = true → result.2.writes.flatten ++ result.2.chunk = pdus
  part : result.2.writes.flatten <+: pdus
  empty : chunkBytes result.2.chunk = 0 → result.2.chunk = []
  chunk_le : chunkBytes result.2.chunk ≤ roaWriteChunkSize
  write_le : ∀ write ∈ result.2.writes,
    chunkBytes write ≤ roaWriteChunkSize ∨ ∃ pdu, write = [pdu]

variable {good : Prop} {outcome : ℕ → WriteOutcome} {pdus : List Buffer} {s : Sending}

theorem Sends.append_of_failed {result : Bool × Sending} (h : Sends good pdus result)
    (hfailed : result.1 = false) (more : List Buffer) : Sends good (pdus ++ more) result where
  succeeds := h.succeeds
  all := by simp [hfailed]
  part := h.part.trans (prefix_append ..)
  empty := h.empty
  chunk_le := h.chunk_le
  write_le := h.write_le

section

variable (hgood : good → ∀ n, outcome n = .written)
include hgood

theorem Sends.writeBuffer (h : Sends good pdus (true, s)) (hch : s.chunk = [])
    {write : List Buffer} (hwrite : chunkBytes write ≤ roaWriteChunkSize ∨ ∃ pdu, write = [pdu]) :
    Sends good (pdus ++ write) (s.writeBuffer outcome write) := by
  have hall := h.all rfl
  have hle := forall_mem_append.mpr ⟨h.write_le, forall_mem_singleton.mpr hwrite⟩
  rw [hch, append_nil] at hall
  unfold Sending.writeBuffer
  split
  · refine ⟨fun _ => rfl, fun _ => ?_, ?_, h.empty, h.chunk_le, hle⟩ <;> simp [hall, hch]
  · rename_i href
    refine ⟨fun hg => ?_, nofun, h.part.trans (prefix_append ..), h.empty, h.chunk_le, h.write_le⟩
    rw [hgood hg] at href
    cases href
  · rename_i hbrk
    refine ⟨fun hg => ?_, nofun, by simp [hall], h.empty, h.chunk_le, hle⟩
    rw [hgood hg] at hbrk
    cases hbrk

theorem Sends.flush (h : Sends good pdus (true, s)) : Sends good pdus (s.flush outcome) := by
  have hall : s.writes.flatten ++ s.chunk = pdus := h.all rfl
  unfold Sending.flush
  split
  · exact h
  · rw [← hall]
    refine Sends.writeBuffer hgood (s := { s with chunk := [] }) ?_ rfl (.inl h.chunk_le)
    exact ⟨fun _ => rfl, fun _ => append_nil _, prefix_rfl, fun _ => rfl, Nat.zero_le _, h.write_le⟩

omit hgood in
theorem chunkBytes_flush (outcome : ℕ → WriteOutcome) (s : Sending) :
    chunkBytes (s.flush outcome).2.chunk = 0 := by
  unfold Sending.flush Sending.writeBuffer
  split
  · assumption
  · split <;> rfl

theorem Sends.writePdus (h : Sends good pdus (true, s)) (more : List Buffer) :
    Sends good (pdus ++ more.filter (· ≠ [])) (s.writePdus outcome more) := by
  induction more generalizing pdus s with
  | nil => simpa [Sending.writePdus] using h
  | cons pdu _ ih =>
    unfold Sending.writePdus
    by_cases hnil : pdu.length = 0
    · rw [if_pos hnil, filter_cons_of_neg (by simpa using hnil)]
      exact ih h
    rw [if_neg hnil, filter_cons_of_pos (by simpa using hnil), append_cons]
    generalize hflu : (if chunkBytes s.chunk > 0 ∧ chunkBytes s.chunk + pdu.length >
      roaWriteChunkSize then s.flush outcome else (true, s)) = flushed
    -- there is room for the PDU, or nothing is collected
    have hroom : Sends good pdus flushed ∧ (chunkBytes flushed.2.chunk = 0 ∨
        chunkBytes flushed.2.chunk + pdu.length ≤ roaWriteChunkSize) := by
      split_ifs at hflu with hfull
      · subst hflu
        exact ⟨h.flush hgood, .inl (chunkBytes_flush ..)⟩
      · subst hflu
        exact ⟨h, by dsimp only; omega⟩
    obtain ⟨hsd, hroom⟩ := hroom
    dsimp only
    cases hok : flushed.1 with
    | false => simpa using hsd.append_of_failed hok (pdu :: _)
    | true =>
      have hflu : Sends good pdus (true, flushed.2) := hok ▸ hsd
      by_cases hbig : pdu.length > roaWriteChunkSize
      · rw [if_pos hbig]
        have hsent := hflu.writeBuffer hgood (hsd.empty (by omega)) (.inr ⟨pdu, rfl⟩)
        generalize flushed.2.writeBuffer outcome [pdu] = sent at hsent
        obtain ⟨ok, _⟩ := sent
        cases ok with
        | false => exact hsent.append_of_failed rfl _
        | true => exact ih hsent
      · rw [if_neg hbig]
        have hbytes : chunkBytes (flushed.2.chunk ++ [pdu]) =
            chunkBytes flushed.2.chunk + pdu.length := by simp [chunkBytes]
        refine ih ⟨fun _ => rfl, fun _ => ?_, hflu.part.trans (prefix_append ..), ?_, ?_,
          hflu.write_le⟩
        · rw [← hflu.all rfl, append_assoc]
        · dsimp only
          omega
        · dsimp only
          omega

end

theorem Sends.writeChunkedPduList {ι : Type} {canWrite : ι → List ι → Bool}
    (hgood : good → (∀ n, outcome n = .written) ∧ ∀ item items, canWrite item items = true)
    (buildPdus : ι → List Buffer) (h : Sends good pdus (true, s)) (items : List ι) :
    let result := s.writeChunkedPduList outcome canWrite buildPdus items
    Sends good (pdus ++ (items.flatMap buildPdus).filter (· ≠ [])) result ∧
      (result.1 = true → result.2.chunk = []) := by
  have hout := fun hg => (hgood hg).1
  induction items generalizing pdus s with
  | nil =>
    have hflush := h.flush hout
    refine ⟨?_, fun _ => hflush.empty (chunkBytes_flush ..)⟩
    simpa [Sending.writeChunkedPduList] using hflush
  | cons item _ ih =>
    have hsent := h.writePdus hout (buildPdus item)
    unfold Sending.writeChunkedPduList
    split
    · generalize s.writePdus outcome (buildPdus item) = sent at hsent
      obtain ⟨ok, _⟩ := sent
      rw [flatMap_cons, filter_append, ← append_assoc]
      cases ok with
      | false => exact ⟨hsent.append_of_failed rfl _, nofun⟩
      | true => exact ih hsent
    · rename_i hcan
      refine ⟨⟨fun hg => absurd ((hgood hg).2 ..) hcan, nofun, h.part.trans (prefix_append ..),
        h.empty, h.chunk_le, h.write_le⟩, nofun⟩

/-- What a list of items is sent as: all PDUs in order if nothing fails, whole PDUs in any case,
and only a single PDU in a write above the limit. -/
theorem writeChunkedPduList_sends {ι : Type} (outcome : ℕ → WriteOutcome)
    (canWrite : ι → List ι → Bool) (buildPdus : ι → List Buffer) (items : List ι) :
    let result := ({} : Sending).writeChunkedPduList outcome canWrite buildPdus items
    let pdus := (items.flatMap buildPdus).filter (· ≠ [])
    ((∀ n, outcome n = .written) ∧ (∀ item items, canWrite item items = true) → result.1 = true) ∧
      (result.1 = true → result.2.writes.flatten = pdus ∧
        result.2.writes.flatten.flatten = (items.flatMap buildPdus).flatten) ∧
      result.2.writes.flatten <+: pdus ∧
      ∀ write ∈ result.2.writes, chunkBytes write ≤ roaWriteChunkSize ∨ ∃ pdu, write = [pdu] := by
  have hstart : Sends ((∀ n, outcome n = .written) ∧ ∀ item items, canWrite item items = true) []
      (true, {}) := ⟨fun _ => rfl, fun _ => rfl, prefix_rfl, fun _ => rfl, Nat.zero_le _, nofun⟩
  obtain ⟨hsd, hch⟩ := hstart.writeChunkedPduList id buildPdus items
  refine ⟨hsd.succeeds, fun hok => ?_, hsd.part, hsd.write_le⟩
  have hall := hsd.all hok
  rw [hch hok, append_nil] at hall
  exact ⟨hall, (congrArg flatten hall).trans flatten_filter_ne_nil⟩

/-! ## Suspended lists

A task of the send queue writes a list with `writeChunked`, which returns at every write. Resumed
until it is finished, it makes the writes that the whole list makes when none of them fails. -/

section Resume

/-- The rest of a list, written to its end. -/
def resume {ι : Type} (buildPdus : ι → List Buffer) (s : Sending) (pdus : List Buffer)
    (items : List ι) : Bool × Sending :=
  let sent := s.writePdus (fun _ => .written) pdus
  if sent.1 then
    sent.2.writeChunkedPduList (fun _ => .written) (fun _ _ => true) buildPdus items
  else sent

/-- Where the inner loop stops to write, the whole list writes the same and goes on. -/
theorem writePdus_fillChunk (s : Sending) (pdus : List Buffer) :
    s.writePdus (fun _ => .written) pdus = match fillChunk s.chunk pdus with
      | .flush chunk pdus => Sending.writePdus (fun _ => .written) ⟨[], s.writes ++ [chunk]⟩ pdus
      | .single pdu chunk pdus =>
        Sending.writePdus (fun _ => .written) ⟨chunk, s.writes ++ [[pdu]]⟩ pdus
      | .collected chunk => (true, { s with chunk }) := by
  induction pdus generalizing s with
  | nil => rfl
  | cons pdu pdus ih =>
    unfold fillChunk
    by_cases hempty : pdu.length = 0
    · rw [Sending.writePdus, if_pos hempty, if_pos hempty]
      exact ih s
    rw [if_neg hempty]
    by_cases hfull : chunkBytes s.chunk > 0 ∧ chunkBytes s.chunk + pdu.length > roaWriteChunkSize
    · have hflush : s.flush (fun _ => .written) = (true, ⟨[], s.writes ++ [s.chunk]⟩) :=
        if_neg hfull.1.ne'
      have hroom : ¬ (chunkBytes [] > 0 ∧ chunkBytes [] + pdu.length > roaWriteChunkSize) :=
        fun h => absurd h.1 (lt_irrefl 0)
      rw [if_pos hfull]
      dsimp only
      rw [Sending.writePdus, Sending.writePdus]
      simp only [if_neg hempty, if_pos hfull, if_neg hroom, hflush]
    · rw [if_neg hfull, Sending.writePdus]
      by_cases hlarge : pdu.length > roaWriteChunkSize
      · rw [if_pos hlarge]
        simp only [if_neg hempty, if_neg hfull, if_pos hlarge]
        rfl
      · rw [if_neg hlarge]
        simp only [if_neg hempty, if_neg hfull, if_neg hlarge]
        exact ih { s with chunk := s.chunk ++ [pdu] }

variable {c : Encoding} {buildPdus : Operation → List Buffer}

/-- The writes of a suspended list from where it stands to its end -/
inductive Resumed (c : Encoding) : Writing → List (List Buffer) → Prop
  | finished {writing : Writing}
      (done : c.writeChunked writing.chunk writing.pdus writing.items = .ok none) :
      Resumed c writing []
  | write {writing rest : Writing} {written : List Buffer} {writes : List (List Buffer)}
      (next : c.writeChunked writing.chunk writing.pdus writing.items = .ok (some (written, rest)))
      (later : Resumed c rest writes) : Resumed c writing (written :: writes)

/-- One write of a suspended list is one write of the whole list. -/
theorem resume_writeChunked {result : Option (List Buffer × Writing)} {items : List Operation}
    (hbuild : ∀ item ∈ items, c.buildDeltaOperationBuffers item = .ok (buildPdus item))
    (s : Sending) {pdus : List Buffer} (h : c.writeChunked s.chunk pdus items = .ok result) :
    match result with
    | none => (s.resume buildPdus pdus items).1 = true ∧
      (s.resume buildPdus pdus items).2.writes = s.writes
    | some (written, rest) => rest.items <:+ items ∧ s.resume buildPdus pdus items =
      Sending.resume buildPdus ⟨rest.chunk, s.writes ++ [written]⟩ rest.pdus rest.items := by
  induction items generalizing s pdus with
  | nil =>
    unfold Encoding.writeChunked at h
    unfold resume
    rw [writePdus_fillChunk s pdus]
    cases hfill : fillChunk s.chunk pdus with
    | flush _ _ | single _ _ _ =>
      rw [hfill] at h
      cases h
      exact ⟨suffix_rfl, rfl⟩
    | collected chunk =>
      rw [hfill] at h
      dsimp only at h ⊢
      rw [Sending.writeChunkedPduList, Sending.flush]
      by_cases hempty : chunkBytes chunk = 0
      · rw [if_pos hempty] at h ⊢
        cases h
        exact ⟨rfl, rfl⟩
      · rw [if_neg hempty] at h ⊢
        cases h
        exact ⟨suffix_rfl, rfl⟩
  | cons item items ih =>
    obtain ⟨hitem, hitems⟩ := forall_mem_cons.mp hbuild
    unfold Encoding.writeChunked at h
    have hfilled := writePdus_fillChunk s pdus
    cases hfill : fillChunk s.chunk pdus with
    | flush _ _ | single _ _ _ =>
      rw [hfill] at h hfilled
      cases h
      refine ⟨suffix_rfl, ?_⟩
      rw [resume, hfilled]
      rfl
    | collected chunk =>
      rw [hfill] at h hfilled
      dsimp only at h hfilled
      rw [hitem] at h
      have hnext : s.resume buildPdus pdus (item :: items) =
          Sending.resume buildPdus { s with chunk } (buildPdus item) items := by
        rw [resume, hfilled]
        rfl
      have hlater := ih hitems { s with chunk } h
      rw [hnext]
      cases result with
      | none => exact hlater
      | some next => exact ⟨hlater.1.trans (suffix_cons _ _), hlater.2⟩

theorem Resumed.resume {writing : Writing} {writes : List (List Buffer)}
    (h : Resumed c writing writes) (earlier : List (List Buffer))
    (hbuild : ∀ item ∈ writing.items, c.buildDeltaOperationBuffers item = .ok (buildPdus item)) :
    let result := Sending.resume buildPdus ⟨writing.chunk, earlier⟩ writing.pdus writing.items
    result.1 = true ∧ result.2.writes = earlier ++ writes := by
  induction h generalizing earlier with
  | finished done =>
    rw [append_nil]
    exact resume_writeChunked hbuild ⟨_, earlier⟩ done
  | @write _ rest written writes next _ ih =>
    obtain ⟨hsuffix, hnext⟩ := resume_writeChunked hbuild ⟨_, earlier⟩ next
    have hlater := ih (earlier ++ [written]) fun item hitem => hbuild item (hsuffix.subset hitem)
    rw [append_assoc] at hlater
    rw [hnext]
    exact hlater

/-- The two forms of `writeChunkedPduList` write the same. -/
theorem writeChunkedPduList_eq_resumed {items : List Operation} {writes : List (List Buffer)}
    (h : Resumed c ⟨[], [], items⟩ writes)
    (hbuild : ∀ item ∈ items, c.buildDeltaOperationBuffers item = .ok (buildPdus item)) :
    let result := ({} : Sending).writeChunkedPduList (fun _ => .written) (fun _ _ => true)
      buildPdus items
    result.1 = true ∧ result.2.writes = writes :=
  h.resume [] hbuild

end Resume

end Rpki.Sending
