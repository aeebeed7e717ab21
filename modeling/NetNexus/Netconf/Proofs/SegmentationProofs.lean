import NetNexus.Netconf.Proofs.FramingProofs

/-!
# Chunked framing: runs, cutting and the round trip

The runs of the chunked framer are described by the grammar: it reads the chunks of a message in
one go, and a run that ends in a failure has read complete messages and then stands at a bad
header. The results about cutting a stream follow from the library of incremental decoders.
-/

namespace Netconf

open List Node Stream

namespace ChunkedFramer

variable {f : ChunkedFramer} {p p' : PartialMessage} {buffer bytes body text : Buffer}
  {bodies : List Buffer} {size : ℕ}

/-! ## Reading what the grammar describes -/

theorem drop_sizeLine (text rest : Buffer) :
    (0x0A :: 0x23 :: (text ++ 0x0A :: rest)).drop (text.length + 3) = rest := by
  rw [drop_succ_cons, drop_succ_cons,
    ← drop_drop, drop_left]
  rfl

theorem steps_chunk (hp : p.expectedChunkSize = none) (hg : f.GoodSize p.messageSize text)
    (hbody : body.length = sizeNumber (asciiDecode text)) (rest : Buffer) :
    f.decoder.Steps ⟨p, 0x0A :: 0x23 :: (text ++ 0x0A :: (body ++ rest))⟩ []
      ⟨p.addChunk body, rest⟩ := by
  have hl := isLine_of_isSizeText hg.isSizeText
  set q := p.expect _ _ with hq
  have hhdr : f.decoder.Steps ⟨p, 0x0A :: 0x23 :: (text ++ 0x0A :: (body ++ rest))⟩ []
      ⟨q, body ++ rest⟩ := by
    have hnext := next_line (f := f) hp hl (body ++ rest)
    rw [readSize_good hg] at hnext
    have hstep := Decoder.Steps.single (d := f.decoder)
      (c := ⟨p, 0x0A :: 0x23 :: (text ++ 0x0A :: (body ++ rest))⟩) hnext
    rw [drop_sizeLine] at hstep
    exact hstep
  have hread : f.decoder.Steps ⟨q, body ++ rest⟩ [] ⟨p.addChunk body, rest⟩ := by
    have hexp : q.expectedChunkSize = some body.length := by
      rw [hbody]
      rfl
    have hnext : f.next q (body ++ rest) = _ := next_body hexp
    rw [if_neg (by rw [length_append]; omega)] at hnext
    have hstep := Decoder.Steps.single (d := f.decoder) (c := ⟨q, body ++ rest⟩) hnext
    rw [show p.addChunk body = q.addChunk body from rfl]
    simpa using hstep
  exact hhdr.trans hread

theorem steps_chunks (h : f.Chunks size bytes bodies) (hp : p.expectedChunkSize = none)
    (hs : p.messageSize = size) (rest : Buffer) :
    ∃ p', f.decoder.Steps ⟨p, bytes ++ rest⟩ [] ⟨p', rest⟩ ∧ p'.expectedChunkSize = none ∧
      p'.messageChunks = p.messageChunks ++ bodies := by
  induction h generalizing p with
  | nil _ => exact ⟨p, .refl _, hp, by simp⟩
  | @cons size text body bytes bodies hg hbody _ ih =>
    subst hs
    have hchunk := steps_chunk hp hg hbody (bytes ++ rest)
    obtain ⟨p', hsteps, hp', hchs⟩ := ih (p := p.addChunk body) rfl rfl
    refine ⟨p', ?_, hp', ?_⟩
    · simpa using hchunk.trans hsteps
    · rw [hchs]
      simp [PartialMessage.addChunk]

theorem steps_frame (h : f.IsFrame bytes body) (rest : Buffer) :
    f.decoder.Steps ⟨.empty, bytes ++ rest⟩ [utf8Decode body] ⟨.empty, rest⟩ := by
  obtain ⟨_, _, rfl, hchs, hne, rfl⟩ := h
  obtain ⟨p', hsteps, hp', hc⟩ :=
    steps_chunks hchs (p := .empty) rfl rfl _
  have hend := next_goodEnd (f := f) hp' (hc ▸ hne) rest
  have hstep := Decoder.Steps.single (d := f.decoder) (c := ⟨p', endMarker ++ rest⟩) hend
  rw [hc] at hstep
  rw [append_assoc]
  exact hsteps.trans hstep

/-! ## What a failing run has read -/

/-- The shape of a buffer that is read from the chunk boundary `p` up to the failure at `c`. -/
def ReadsTo (f : ChunkedFramer) (p : PartialMessage) (buffer : Buffer) (ms : List String)
    (c : Buffered UInt8 PartialMessage) : Prop :=
  ∃ chunks bodies tail, buffer = chunks ++ tail ∧ f.Chunks p.messageSize chunks bodies ∧
    ((ms = [] ∧ f.BadHeader (p.messageChunks ++ bodies) tail) ∨
      ∃ m ms' rest, ms = m :: ms' ∧ tail = endMarker ++ rest ∧ p.messageChunks ++ bodies ≠ [] ∧
        f.decoder.Steps ⟨.empty, rest⟩ ms' c)

theorem readsTo_of_steps {c c' : Buffered UInt8 PartialMessage} {ms : List String}
    {e : FramingError} (h : f.decoder.Steps c ms c')
    (hfail : f.next c'.ctl c'.buffer = .fail p' e) : match c.ctl.expectedChunkSize with
    | none => ReadsTo f c.ctl c.buffer ms c' | some n => n ≤ c.buffer.length ∧
        ReadsTo f (c.ctl.addChunk (c.buffer.take n)) (c.buffer.drop n) ms c' := by
  induction h with
  | refl c =>
    obtain ⟨p, buffer⟩ := c
    cases round_of_next hfail with | bad hp hbad =>
    rw [hp]
    exact ⟨[], [], buffer, rfl, .nil _, .inl ⟨rfl, by simpa using hbad⟩⟩
  | @head c c' n s out ms hnext hs ih =>
    specialize ih hfail
    obtain ⟨p, _⟩ := c
    cases round_of_next hnext with
    | body hp hn =>
      rw [hp]
      exact ⟨hn, ih⟩
    | message hp hc rest =>
      rw [hp]
      refine ⟨[], [], _, rfl, .nil _, .inr ⟨_, ms, rest, rfl, rfl, ?_, hs⟩⟩
      simpa using hc
    | @size text hp hg rest =>
      rw [hp]
      rw [drop_sizeLine] at ih
      obtain ⟨hn, chunks, bodies, tail, htail, hchs, hend⟩ := ih
      set n := sizeNumber _
      have hlen : (rest.take n).length = n := length_take_of_le hn
      refine ⟨_, rest.take n :: bodies, tail, ?_, .cons hg hlen hchs, ?_⟩
      · have hrest : rest = rest.take n ++ (chunks ++ tail) := by
          rw [← htail, take_append_drop]
        nth_rewrite 1 [hrest]
        simp
      · simpa [PartialMessage.addChunk, PartialMessage.expect] using hend

/-- A run that ends in a failure has read complete messages and stands in rejected input. -/
theorem frames_of_steps {c : Buffered UInt8 PartialMessage} {ms : List String} {e : FramingError}
    (h : f.decoder.Steps ⟨.empty, buffer⟩ ms c) (hfail : f.next c.ctl c.buffer = .fail p' e) :
    ∃ (frames : List Buffer) (bad : Buffer), buffer = frames.flatten ++ bad ∧
      frames.length = ms.length ∧ (∀ bytes ∈ frames, ∃ body, f.IsFrame bytes body) ∧
      f.Rejected bad := by
  induction ms generalizing buffer with
  | nil =>
    obtain ⟨chunks, bodies, tail, rfl, hchs, hend⟩ := readsTo_of_steps h hfail
    rcases hend with ⟨-, hbad⟩ | ⟨m, _, -, hms, -⟩
    · exact ⟨[], _, rfl, rfl, by simp, chunks, bodies, tail, rfl, hchs, hbad⟩
    · cases hms
  | cons m _ ih =>
    obtain ⟨chunks, bodies, _, rfl, hchs, hend⟩ := readsTo_of_steps h hfail
    rcases hend with ⟨hms, -⟩ | ⟨_, _, _, hms, rfl, hne, hsteps⟩
    · cases hms
    · cases hms
      obtain ⟨frames, bad, rfl, hlen, hall, hbad⟩ := ih hsteps
      refine ⟨(chunks ++ endMarker) :: frames, bad, by simp, by simp [hlen], ?_, hbad⟩
      intro bytes hb
      rcases mem_cons.mp hb with rfl | hb
      · exact ⟨_, chunks, bodies, rfl, hchs, hne, rfl⟩
      · exact hall bytes hb

theorem segmentationIndependent_iff (f : ChunkedFramer) (stream : Buffer) :
    f.decoder.SegmentationIndependent FramingError.code initial stream ↔
      ¬ f.MessageThenRejected stream := by
  have hnil : f.decoder.next .empty [] = .wait := next_nil (f := f) (p := .empty) rfl
  refine Decoder.segmentationIndependent_iff_of_frames decoder_stable decoder_progress hnil
    (fun _ _ hframe rest => steps_frame hframe rest) ?_
    fun ms c s e hsteps hfail => frames_of_steps hsteps hfail
  rintro _ ⟨_, _, tail, rfl, hchs, hbad⟩
  obtain ⟨q, hread, hq, hc⟩ := steps_chunks hchs (p := .empty) rfl rfl tail
  obtain ⟨e, hfail⟩ := fail_of_badHeader hq (by rw [hc]; exact hbad)
  exact ⟨_, q, e, hread, hfail⟩

end ChunkedFramer

/-- Either framer gives the same for every cutting of a stream if and only if the stream does not
hold a complete message before the input at which the framer gives up. -/
theorem framers_segmentationIndependent_iff (d : DelimiterFramer) (c : ChunkedFramer)
    (stream : Buffer) :
    (d.decoder.SegmentationIndependent FramingError.code DelimiterFramer.initial stream ↔
      ¬ d.MessageThenRejected stream) ∧
    (c.decoder.SegmentationIndependent FramingError.code ChunkedFramer.initial stream ↔
      ¬ c.MessageThenRejected stream) :=
  ⟨d.segmentationIndependent_iff stream, c.segmentationIndependent_iff stream⟩

/-- The message `a` in one chunk, and then a byte that starts no chunk header: in one piece the
message is lost. -/
theorem framers_not_segmentationIndependent :
    ¬ (ChunkedFramer.create {}).decoder.SegmentationIndependent FramingError.code
      ChunkedFramer.initial
      [0x0A, 0x23, 0x31, 0x0A, 0x61, 0x0A, 0x23, 0x23, 0x0A, 0x78] := by
  intro hind
  have hgood : (ChunkedFramer.create {}).GoodSize 0 [0x31] :=
    ⟨by decide, by decide, by decide, by decide⟩
  have hchs : (ChunkedFramer.create {}).Chunks 0 [0x0A, 0x23, 0x31, 0x0A, 0x61] [[0x61]] :=
    ChunkedFramer.Chunks.cons hgood (show [0x61].length = _ by decide) (.nil _)
  refine (ChunkedFramer.segmentationIndependent_iff ..).mp hind
    ⟨[[0x0A, 0x23, 0x31, 0x0A, 0x61, 0x0A, 0x23, 0x23, 0x0A]], [0x78], rfl, by decide, ?_, ?_⟩
  · intro bytes hb
    rw [mem_singleton.mp hb]
    exact ⟨[0x61], _, _, rfl, hchs, by decide, rfl⟩
  · exact ⟨[], [], [0x78], rfl, .nil _, .notLineFeed (by decide) _⟩

end Netconf
