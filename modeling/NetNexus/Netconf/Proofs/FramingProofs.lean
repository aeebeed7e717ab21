import NetNexus.Netconf.Grammar
import NetNexus.Node.Proofs.BufferProofs
import NetNexus.Stream.Proofs.DecoderProofs

/-!
# The framers read exactly the framed streams

One lemma for every shape of the buffer says what a round of each framer does there. From these
follow stability and progress of the two decoders, and that their runs are described by the
grammar.
-/

namespace Netconf

open List Node Stream

theorem delimiter_ne_nil : delimiter ≠ [] := by decide

@[simp] theorem delimiter_length : delimiter.length = 6 := rfl

namespace DelimiterFramer

variable {f : DelimiterFramer} {buffer bytes body : Buffer}

@[simp] theorem decoder_next (u : Unit) : f.decoder.next u = f.next := rfl

theorem next_of_none (h : indexOf delimiter buffer = none) :
    f.next buffer = if f.maxMessageSize + 6 ≤ buffer.length then .fail () f.tooLarge
      else .wait := by
  have hiff : buffer.length > f.maxMessageSize + delimiter.length - 1 ↔
      f.maxMessageSize + 6 ≤ buffer.length := by
    rw [delimiter_length]
    omega
  unfold next
  rw [h]
  simp only [hiff]

theorem next_of_some {i : ℕ} (h : indexOf delimiter buffer = some i) :
    f.next buffer = if f.maxMessageSize < i then .fail () f.tooLarge
      else .take (i + 6) () (some (utf8Decode (buffer.take i))) := by
  unfold next
  rw [h]
  rfl

theorem next_eq_take {u : Unit} {n : ℕ} {out : Option String}
    (h : f.next buffer = .take n u out) : ∃ i, indexOf delimiter buffer = some i ∧
      i ≤ f.maxMessageSize ∧ n = i + 6 ∧ out = some (utf8Decode (buffer.take i)) := by
  cases hi : indexOf delimiter buffer with
  | none =>
    rw [next_of_none hi] at h
    split at h <;> cases h
  | some i =>
    rw [next_of_some hi] at h
    split at h
    · cases h
    · cases h
      exact ⟨i, rfl, by omega, rfl, rfl⟩

theorem next_eq_fail_iff {u : Unit} {e : FramingError} :
    f.next buffer = .fail u e ↔ e = f.tooLarge ∧ f.Rejected buffer := by
  cases hi : indexOf delimiter buffer with
  | none =>
    have hno := (indexOf_eq_none_iff delimiter_ne_nil).mp hi
    have hrej : f.Rejected buffer ↔ f.maxMessageSize + 6 ≤ buffer.length :=
      ⟨fun hr => hr.1, fun hlen => ⟨hlen, fun j _ => hno j⟩⟩
    rw [next_of_none hi, hrej]
    by_cases hlen : f.maxMessageSize + 6 ≤ buffer.length
    · simp [hlen, eq_comm]
    · simp [hlen]
  | some i =>
    obtain ⟨hat, hno⟩ := (indexOf_eq_some_iff delimiter_ne_nil).mp hi
    have hrej : f.Rejected buffer ↔ f.maxMessageSize < i := by
      constructor
      · intro hr
        by_contra hle
        exact hr.2 i (by omega) hat
      · intro hlt
        have hlen := add_length_le_of_prefix_drop delimiter_ne_nil hat
        rw [delimiter_length] at hlen
        exact ⟨by rw [delimiter_length]; omega, fun j hj => hno j (by omega)⟩
    rw [next_of_some hi, hrej]
    by_cases hlt : f.maxMessageSize < i
    · simp [hlt, eq_comm]
    · simp [hlt]

theorem Rejected.append (h : f.Rejected buffer) (more : Buffer) : f.Rejected (buffer ++ more) := by
  obtain ⟨_, hno⟩ := h
  refine ⟨by rw [length_append]; omega, fun i hi hat => hno i hi ?_⟩
  rw [DelimiterAt, prefix_drop_append_iff (by omega)] at hat
  exact hat

theorem decoder_stable : f.decoder.Stable FramingError.code where
  take_append := by
    intro _ buf n _ out h more
    obtain ⟨i, hi, _, rfl, rfl⟩ := next_eq_take h
    have hlen := add_length_le_of_prefix_drop delimiter_ne_nil
      ((indexOf_eq_some_iff delimiter_ne_nil).mp hi).1
    have hnot : ¬ f.maxMessageSize < i := by omega
    rw [decoder_next, next_of_some (indexOf_append delimiter_ne_nil hi more), if_neg hnot,
      take_append_of_le_length (by omega)]
  take_le := by
    intro _ buf n _ out h
    obtain ⟨i, hi, -, rfl, -⟩ := next_eq_take h
    exact add_length_le_of_prefix_drop delimiter_ne_nil
      ((indexOf_eq_some_iff delimiter_ne_nil).mp hi).1
  fail_append := by
    intro _ buf _ e h more
    obtain ⟨rfl, hr⟩ := next_eq_fail_iff.mp h
    exact ⟨f.tooLarge, next_eq_fail_iff.mpr ⟨rfl, hr.append more⟩, rfl⟩

theorem decoder_progress : f.decoder.Progress := by
  intro _ buf n _ out h
  obtain ⟨i, -, -, rfl, -⟩ := next_eq_take h
  omega

theorem next_nil : f.next [] = .wait := by
  rw [next_of_none (by decide)]
  simp

/-! ## Runs -/

theorem steps_frame (h : f.IsFrame bytes body) (rest : Buffer) :
    f.decoder.Steps ⟨(), bytes ++ rest⟩ [utf8Decode body] ⟨(), rest⟩ := by
  obtain ⟨rfl, _, hno⟩ := h
  have hat : delimiter <+: (body ++ delimiter).drop body.length := by simp
  have hi : indexOf delimiter (body ++ delimiter) = some body.length :=
    (indexOf_eq_some_iff delimiter_ne_nil).mpr ⟨hat, hno⟩
  have hnot : ¬ f.maxMessageSize < body.length := by omega
  have hnext := next_of_some (f := f) (indexOf_append delimiter_ne_nil hi rest)
  rw [if_neg hnot] at hnext
  have hstep := Decoder.Steps.single (d := f.decoder)
    (c := ⟨(), body ++ delimiter ++ rest⟩) hnext
  simpa [← delimiter_length] using hstep

theorem isFrame_of_take {i : ℕ} (hi : indexOf delimiter buffer = some i)
    (hle : i ≤ f.maxMessageSize) : f.IsFrame (buffer.take (i + 6)) (buffer.take i) := by
  obtain ⟨⟨rest, hrest⟩, hno⟩ := (indexOf_eq_some_iff delimiter_ne_nil).mp hi
  have hlen : i + 6 ≤ buffer.length :=
    add_length_le_of_prefix_drop delimiter_ne_nil ⟨rest, hrest⟩
  have hbody : (buffer.take i).length = i := length_take_of_le (by omega)
  refine ⟨?_, by omega, ?_⟩
  · rw [take_add, ← hrest]
    rfl
  · rw [hbody]
    intro j hj hat
    have happ := hat.trans (prefix_append _ ((buffer.drop (i + 6))))
    refine hno j hj ?_
    have hcut : buffer.drop j = (buffer.take (i + 6)).drop j ++ buffer.drop (i + 6) := by
      rw [← drop_append_of_le_length (by rw [length_take]; omega), take_append_drop]
    rw [hcut]
    exact happ

/-- What a run takes off the buffer is a sequence of complete messages. -/
theorem bodies_of_steps {u u' : Unit} {rest : Buffer} {ms : List String}
    (h : f.decoder.Steps ⟨u, buffer⟩ ms ⟨u', rest⟩) :
    ∃ bodies : List Buffer, buffer = bodies.flatMap encodeDelimiter ++ rest ∧
      ms = bodies.map utf8Decode ∧ ∀ body ∈ bodies, f.IsFrame (encodeDelimiter body) body := by
  generalize hc : (⟨u, buffer⟩ : Buffered UInt8 Unit) = c at h
  generalize hc' : (⟨u', rest⟩ : Buffered UInt8 Unit) = c' at h
  induction h generalizing buffer with
  | refl _ =>
    cases hc
    cases hc'
    exact ⟨[], rfl, rfl, by simp⟩
  | head hnext _ ih =>
    cases hc
    cases hc'
    obtain ⟨i, hi, hle, rfl, rfl⟩ := next_eq_take hnext
    obtain ⟨bodies, heq, rfl, hall⟩ := ih rfl rfl
    have hframe := isFrame_of_take hi hle
    have hbytes : encodeDelimiter (buffer.take i) = buffer.take (i + 6) := hframe.1.symm
    refine ⟨buffer.take i :: bodies, ?_, rfl, forall_mem_cons.mpr ⟨hbytes ▸ hframe, hall⟩⟩
    rw [flatMap_cons, append_assoc, ← heq, hbytes, take_append_drop]

theorem segmentationIndependent_iff (f : DelimiterFramer) (stream : Buffer) :
    f.decoder.SegmentationIndependent FramingError.code initial stream ↔
      ¬ f.MessageThenRejected stream := by
  have hnil : f.decoder.next () [] = .wait := next_nil (f := f)
  refine Decoder.segmentationIndependent_iff_of_frames decoder_stable decoder_progress hnil
    (fun _ _ hframe rest => steps_frame hframe rest) (fun bad hbad => ?_) ?_
  · exact ⟨_, (), f.tooLarge, .refl _, next_eq_fail_iff.mpr ⟨rfl, hbad⟩⟩
  · rintro _ ⟨u, rest⟩ s e hsteps hfail
    obtain ⟨bodies, heq, rfl, hall⟩ := bodies_of_steps hsteps
    refine ⟨bodies.map encodeDelimiter, rest, heq, by simp, ?_, (next_eq_fail_iff.mp hfail).2⟩
    intro bytes hb
    obtain ⟨body, hbody, rfl⟩ := mem_map.mp hb
    exact ⟨body, hall body hbody⟩

end DelimiterFramer

namespace ChunkedFramer

variable {f : ChunkedFramer} {p p' : PartialMessage} {buffer text rest : Buffer}

@[simp] theorem decoder_next : f.decoder.next = f.next := rfl

/-! ## One round, by the shape of the buffer -/

/-- The shapes a buffer can have where a chunk header or an end marker has to stand. -/
inductive Head : Buffer → Prop where
  | nil : Head []
  | notLineFeed {b : UInt8} (h : b ≠ 0x0A) (rest : Buffer) : Head (b :: rest)
  | one : Head [0x0A]
  | two (b : UInt8) : Head [0x0A, b]
  | notHash {b : UInt8} (h : b ≠ 0x23) (b' : UInt8) (rest : Buffer) : Head (0x0A :: b :: b' :: rest)
  | shortEnd : Head [0x0A, 0x23, 0x23]
  | badEnd {b : UInt8} (h : b ≠ 0x0A) (rest : Buffer) : Head (0x0A :: 0x23 :: 0x23 :: b :: rest)
  | goodEnd (rest : Buffer) : Head (0x0A :: 0x23 :: 0x23 :: 0x0A :: rest)
  | openLine {text : Buffer} (h : IsLine text) (hne : text ≠ []) : Head (0x0A :: 0x23 :: text)
  | line {text : Buffer} (h : IsLine text) (rest : Buffer) :
      Head (0x0A :: 0x23 :: (text ++ 0x0A :: rest))

theorem head_line (b : UInt8) (hb : b ≠ 0x23) (rest : Buffer) :
    Head (0x0A :: 0x23 :: b :: rest) := by
  by_cases hmem : 0x0A ∈ b :: rest
  · obtain ⟨text, tail, heq, hnot⟩ := eq_append_cons_of_mem hmem
    have hline : IsLine text := by
      refine ⟨hnot, ?_⟩
      cases text with
      | nil => simp
      | cons _ _ =>
        obtain ⟨rfl, -⟩ := List.cons.inj heq
        simpa using hb
    rw [heq]
    exact .line hline tail
  · exact .openLine ⟨hmem, by simpa using hb⟩ (by simp)

theorem head (buffer : Buffer) : Head buffer := by
  match buffer with
  | [] => exact .nil
  | b :: rest =>
    by_cases hb : b = 0x0A
    · subst hb
      match rest with
      | [] => exact .one
      | [b] => exact .two b
      | b :: b' :: rest =>
        by_cases hb : b = 0x23
        · subst hb
          by_cases hb' : b' = 0x23
          · subst hb'
            match rest with
            | [] => exact .shortEnd
            | b :: rest =>
              by_cases hb : b = 0x0A
              · subst hb
                exact .goodEnd rest
              · exact .badEnd hb rest
          · exact head_line b' hb' rest
        · exact .notHash hb b' rest
    · exact .notLineFeed hb rest

theorem next_body {n : ℕ} (hp : p.expectedChunkSize = some n) : f.next p buffer =
    if buffer.length < n then .wait else .take n (p.addChunk (buffer.take n)) none := by
  unfold next
  rw [hp]

section Header

variable (hp : p.expectedChunkSize = none)

include hp

theorem next_nil : f.next p [] = .wait := by
  unfold next
  rw [hp]

variable {b : UInt8}

theorem next_notLineFeed (hb : b ≠ 0x0A) (rest : Buffer) : f.next p (b :: rest) = .fail p
    ⟨"Malformed NETCONF 1.1 framing: chunk header must start with LF", .invalidChunkHeader⟩ := by
  unfold next
  rw [hp]
  simp [hb]

theorem next_one : f.next p [0x0A] = .wait := by
  unfold next
  rw [hp]
  simp

theorem next_two (b : UInt8) : f.next p [0x0A, b] = .wait := by
  unfold next
  rw [hp]
  simp

theorem next_notHash (hb : b ≠ 0x23) (b' : UInt8) (rest : Buffer) :
    f.next p (0x0A :: b :: b' :: rest) = .fail p
      ⟨"Malformed NETCONF 1.1 framing: LF must be followed by #", .invalidChunkHeader⟩ := by
  unfold next
  rw [hp]
  simp [hb]

theorem next_shortEnd : f.next p [0x0A, 0x23, 0x23] = .wait := by
  unfold next
  rw [hp]
  simp

theorem next_badEnd (hb : b ≠ 0x0A) (rest : Buffer) :
    f.next p (0x0A :: 0x23 :: 0x23 :: b :: rest) = .fail p
      ⟨"Malformed NETCONF 1.1 framing: end marker must be LF##LF", .invalidEndMarker⟩ := by
  unfold next
  rw [hp]
  simp [hb]

theorem next_emptyEnd (hc : p.messageChunks = []) (rest : Buffer) :
    f.next p (0x0A :: 0x23 :: 0x23 :: 0x0A :: rest) = .fail p
      ⟨"Malformed NETCONF 1.1 framing: an empty chunked message is not allowed",
        .emptyChunkedMessage⟩ := by
  unfold next
  rw [hp]
  simp [hc]

theorem next_goodEnd (hc : p.messageChunks ≠ []) (rest : Buffer) :
    f.next p (0x0A :: 0x23 :: 0x23 :: 0x0A :: rest) =
      .take 4 .empty (some (utf8Decode p.messageChunks.flatten)) := by
  unfold next
  rw [hp]
  simp [hc, p.size_eq, -length_flatten]

theorem next_openLine (h : IsLine text) (hne : text ≠ []) : f.next p (0x0A :: 0x23 :: text) =
    if 12 < text.length then .fail p
      ⟨"Malformed NETCONF 1.1 framing: chunk size header is too long", .invalidChunkSize⟩
    else .wait := by
  cases text with
  | nil => exact absurd rfl hne
  | cons b text =>
    have hb : b ≠ 0x23 := by simpa using h.2
    have hidx : (b :: text).findIdx? (· == 0x0A) = none := by
      rw [findIdx?_eq_none_iff]
      intro x hx
      have hx' : x ≠ 0x0A := fun he => h.1 (he ▸ hx)
      simpa using hx'
    unfold next
    rw [hp]
    simp only [hb, hidx, ne_eq, not_true_eq_false, if_false, length_cons]
    congr 1
    rw [eq_iff_iff]
    omega

theorem next_line (h : IsLine text) (rest : Buffer) :
    f.next p (0x0A :: 0x23 :: (text ++ 0x0A :: rest)) = f.readSize p text := by
  have hidx : (text ++ 0x0A :: rest).findIdx? (· == 0x0A) = some text.length := by
    rw [findIdx?_append, findIdx?_eq_none_iff.mpr, findIdx?_cons]
    · simp
    · intro x hx
      have hx' : x ≠ 0x0A := fun he => h.1 (he ▸ hx)
      simpa using hx'
  have htake : (text ++ 0x0A :: rest).take text.length = text := by simp
  cases htext : text ++ 0x0A :: rest with
  | nil => simp at htext
  | cons b _ =>
    have hb : b ≠ 0x23 := by
      cases text with
      | nil =>
        obtain ⟨rfl, -⟩ := List.cons.inj htext
        decide
      | cons _ _ =>
        obtain ⟨rfl, -⟩ := List.cons.inj htext
        simpa using h.2
    rw [htext] at hidx htake
    unfold next
    rw [hp]
    simp [hb, hidx, htake]

end Header

/-! ## The size line -/

theorem readSize_good (h : f.GoodSize p.messageSize text) : f.readSize p text =
    .take (text.length + 3) (p.expect _ (sizeNumber_pos h.isSizeText)) none := by
  have h₁ := h.le_max
  have h₂ := h.le_maxChunkSize
  have h₃ := h.le_maxMessageSize
  unfold readSize
  rw [dif_pos h.isSizeText, if_neg (by omega), if_neg (by omega), if_neg (by omega)]

theorem readSize_bad (h : ¬ f.GoodSize p.messageSize text) :
    ∃ e, f.readSize p text = .fail p e := by
  unfold readSize
  simp only [gt_iff_lt]
  split
  · split
    · exact ⟨_, rfl⟩
    · split
      · exact ⟨_, rfl⟩
      · split
        · exact ⟨_, rfl⟩
        · exact absurd ⟨‹_›, by omega, by omega, by omega⟩ h
  · exact ⟨_, rfl⟩

/-- A text of more than ten digits spells a number that is too large. -/
theorem pow_le_sizeNumber {cs : List Char} (h : isSizeText cs) :
    10 ^ (cs.length - 1) ≤ sizeNumber cs := by
  cases cs with
  | nil => cases h
  | cons c cs =>
    have hfirst : 0 < Nat.ofDigitChars 10 [c] 0 := by
      refine @sizeNumber_pos [c] ?_
      simp only [isSizeText, Bool.and_eq_true] at h ⊢
      exact ⟨h.1, rfl⟩
    have hsplit : sizeNumber (c :: cs) =
        10 ^ cs.length * Nat.ofDigitChars 10 [c] 0 + sizeNumber cs := by
      rw [sizeNumber, ← singleton_append, Nat.ofDigitChars_append,
        Nat.ofDigitChars_eq_ofDigitChars_zero]
      rfl
    have hmul := Nat.mul_le_mul_left (10 ^ cs.length) hfirst
    rw [length_cons, Nat.add_sub_cancel]
    omega

theorem readSize_long (h : 12 < text.length) :
    ∃ e, f.readSize p text = .fail p e ∧ e.code = .invalidChunkSize := by
  unfold readSize
  by_cases hs : isSizeText (asciiDecode text)
  · have hpow := pow_le_sizeNumber hs
    have hlen : (asciiDecode text).length = text.length := length_map _
    have hmono : 10 ^ 12 ≤ 10 ^ ((asciiDecode text).length - 1) :=
      Nat.pow_le_pow_right (by decide) (by omega)
    have hbig : sizeNumber (asciiDecode text) > 0xFFFFFFFF := by omega
    simp only [dif_pos hs, if_pos hbig]
    exact ⟨_, rfl, rfl⟩
  · simp only [dif_neg hs]
    exact ⟨_, rfl, rfl⟩

/-- A size text is a line: the high bits the framer ignores do not turn a digit into `LF` or
`#`. -/
theorem isLine_of_isSizeText (h : isSizeText (asciiDecode text)) : IsLine text := by
  have hdigit : ∀ b ∈ text, (Char.ofNat (b.toNat % 128)).isDigit := by
    cases text with
    | nil => simp
    | cons b _ =>
      simp only [asciiDecode, map_cons, isSizeText, Bool.and_eq_true, all_map,
        all_eq_true] at h
      intro b' hb'
      rcases mem_cons.mp hb' with rfl | hb'
      · exact h.1.1
      · exact h.2 b' hb'
  constructor
  · intro hmem
    exact absurd (hdigit _ hmem) (by decide)
  · intro hhead
    exact absurd (hdigit _ (mem_of_head? hhead)) (by decide)

/-! ## Decisions -/

/-- What a round does, and what it says about the buffer unless it waits. -/
inductive Round (f : ChunkedFramer) (p : PartialMessage) :
    Buffer → Verdict PartialMessage String FramingError → Prop where
  | wait (buffer : Buffer) : Round f p buffer .wait
  | body {buffer : Buffer} {n : ℕ} (hp : p.expectedChunkSize = some n) (hn : n ≤ buffer.length) :
      Round f p buffer (.take n (p.addChunk (buffer.take n)) none)
  | message (hp : p.expectedChunkSize = none) (hc : p.messageChunks ≠ []) (rest : Buffer) :
      Round f p (endMarker ++ rest) (.take 4 .empty (some (utf8Decode p.messageChunks.flatten)))
  | size {text : Buffer} (hp : p.expectedChunkSize = none) (hg : f.GoodSize p.messageSize text)
      (rest : Buffer) : Round f p (0x0A :: 0x23 :: (text ++ 0x0A :: rest))
        (.take (text.length + 3) (p.expect _ (sizeNumber_pos hg.isSizeText)) none)
  | bad {buffer : Buffer} (hp : p.expectedChunkSize = none)
      (h : f.BadHeader p.messageChunks buffer) (e : FramingError) : Round f p buffer (.fail p e)

theorem round_next (f : ChunkedFramer) (p : PartialMessage) (buffer : Buffer) :
    Round f p buffer (f.next p buffer) := by
  cases hp : p.expectedChunkSize with
  | some m =>
    rw [next_body hp]
    split
    · exact .wait _
    · exact .body hp (by omega)
  | none =>
    cases head buffer with
    | nil => rw [next_nil hp]; exact .wait _
    | notLineFeed hb rest => rw [next_notLineFeed hp hb]; exact .bad hp (.notLineFeed hb rest) _
    | one => rw [next_one hp]; exact .wait _
    | two b => rw [next_two hp]; exact .wait _
    | notHash hb b' rest => rw [next_notHash hp hb]; exact .bad hp (.notHash hb b' rest) _
    | shortEnd => rw [next_shortEnd hp]; exact .wait _
    | badEnd hb rest => rw [next_badEnd hp hb]; exact .bad hp (.endMarker hb rest) _
    | goodEnd rest =>
      by_cases hc : p.messageChunks = []
      · rw [next_emptyEnd hp hc]
        exact .bad hp (.emptyMessage hc rest) _
      · rw [next_goodEnd hp hc]
        exact .message hp hc rest
    | openLine hl hne =>
      rw [next_openLine hp hl hne]
      split
      · exact .bad hp (.longLine hl ‹_›) _
      · exact .wait _
    | @line text hl rest =>
      rw [next_line hp hl]
      by_cases hg : f.GoodSize p.messageSize text
      · rw [readSize_good hg]
        exact .size hp hg rest
      · obtain ⟨e, he⟩ := readSize_bad hg
        rw [he]
        rw [p.size_eq] at hg
        exact .bad hp (.size hl hg rest) e

theorem round_of_next {verdict : Verdict PartialMessage String FramingError}
    (h : f.next p buffer = verdict) : Round f p buffer verdict :=
  h ▸ round_next f p buffer

theorem fail_of_badHeader (hp : p.expectedChunkSize = none)
    (h : f.BadHeader p.messageChunks buffer) : ∃ e, f.next p buffer = .fail p e := by
  cases h with
  | notLineFeed hb rest => exact ⟨_, next_notLineFeed hp hb rest⟩
  | notHash hb b' rest => exact ⟨_, next_notHash hp hb b' rest⟩
  | endMarker hb rest => exact ⟨_, next_badEnd hp hb rest⟩
  | emptyMessage hc rest => exact ⟨_, next_emptyEnd hp hc rest⟩
  | longLine hl hlen =>
    have hne := ne_nil_of_length_pos (Nat.zero_lt_of_lt hlen)
    exact ⟨_, by rw [next_openLine hp hl hne, if_pos hlen]⟩
  | size hl hg _ =>
    rw [← p.size_eq] at hg
    obtain ⟨e, he⟩ := readSize_bad hg
    exact ⟨e, by rw [next_line hp hl, he]⟩

/-- A line that was too long stays too long, whether or not its end arrives. -/
theorem longLine_append (hp : p.expectedChunkSize = none) (hl : IsLine text)
    (hlen : 12 < text.length) (more : Buffer) :
    ∃ e, f.next p (0x0A :: 0x23 :: (text ++ more)) = .fail p e ∧ e.code = .invalidChunkSize := by
  have hhead : (text ++ more).head? ≠ some 0x23 := by
    rw [head?_append_of_ne_nil _ (ne_nil_of_length_pos (Nat.zero_lt_of_lt hlen))]
    exact hl.2
  by_cases hmem : 0x0A ∈ more
  · obtain ⟨front, -, rfl, hnot⟩ := eq_append_cons_of_mem hmem
    have hline : IsLine (text ++ front) := by
      refine ⟨by simp [hl.1, hnot], ?_⟩
      rw [head?_append_of_ne_nil _ (ne_nil_of_length_pos (Nat.zero_lt_of_lt hlen))]
      exact hl.2
    rw [← append_assoc, next_line hp hline]
    exact readSize_long (by rw [length_append]; omega)
  · have hline : IsLine (text ++ more) := ⟨by simp [hl.1, hmem], hhead⟩
    have hlong : 12 < (text ++ more).length := by
      rw [length_append]
      omega
    have hne := ne_nil_of_length_pos (Nat.zero_lt_of_lt hlong)
    rw [next_openLine hp hline hne, if_pos hlong]
    exact ⟨_, rfl, rfl⟩

theorem fail_append {e : FramingError} (h : f.next p buffer = .fail p' e) (more : Buffer) :
    ∃ e', f.next p (buffer ++ more) = .fail p' e' ∧ e'.code = e.code := by
  cases round_of_next h with | bad hp hbad =>
  cases hbad with
  | notLineFeed hb _ =>
    rw [next_notLineFeed hp hb] at h
    cases h
    exact ⟨_, next_notLineFeed hp hb _, rfl⟩
  | notHash hb _ _ =>
    rw [next_notHash hp hb] at h
    cases h
    exact ⟨_, next_notHash hp hb .., rfl⟩
  | endMarker hb _ =>
    rw [next_badEnd hp hb] at h
    cases h
    exact ⟨_, next_badEnd hp hb _, rfl⟩
  | emptyMessage hc _ =>
    rw [next_emptyEnd hp hc] at h
    cases h
    exact ⟨_, next_emptyEnd hp hc _, rfl⟩
  | longLine hl hlen =>
    obtain ⟨_, he₁, hcode₁⟩ := longLine_append hp hl hlen []
    obtain ⟨e₂, he₂, hcode₂⟩ := longLine_append hp hl hlen more
    rw [List.append_nil, h] at he₁
    cases he₁
    exact ⟨e₂, he₂, hcode₂.trans hcode₁.symm⟩
  | size hl _ _ =>
    rw [next_line hp hl] at h
    refine ⟨e, ?_, rfl⟩
    rw [cons_append, cons_append, append_assoc, cons_append, next_line hp hl, h]

theorem decoder_stable : f.decoder.Stable FramingError.code where
  take_append := by
    intro p buf n p' out h more
    cases round_of_next h with
    | body hp hn =>
      rw [decoder_next, next_body hp, if_neg (by rw [length_append]; omega),
        take_append_of_le_length hn]
    | message hp hc _ => exact next_goodEnd hp hc _
    | size hp hg _ =>
      have hl := isLine_of_isSizeText hg.isSizeText
      rw [cons_append, cons_append, append_assoc, cons_append, decoder_next,
        next_line hp hl, readSize_good hg]
  take_le := by
    intro p buf n p' out h
    cases round_of_next h with
    | body _ hn => exact hn
    | message _ _ _ =>
      rw [length_append]
      exact Nat.le_add_right ..
    | size _ _ _ =>
      simp only [length_cons, length_append]
      omega
  fail_append := by
    intro p buf p' e h more
    exact fail_append h more

theorem decoder_progress : f.decoder.Progress := by
  intro p buf n p' out h
  cases round_of_next h with
  | body hp _ => exact p.expected_pos n hp
  | message _ _ _ => decide
  | size _ _ _ => omega

end ChunkedFramer

end Netconf
