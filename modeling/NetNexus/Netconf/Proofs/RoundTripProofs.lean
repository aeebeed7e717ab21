import NetNexus.Netconf.Proofs.SegmentationProofs

/-!
# What the encoders write is what the framers read

The encoders write frames of the grammar, so the runs over their output are known and every cutting
of the output gives the messages back.
-/

namespace Netconf

open List Node Stream

/-! ## Chunk headers -/

theorem asciiDecode_asciiEncode {cs : List Char} (h : ∀ c ∈ cs, c.isDigit) :
    asciiDecode (asciiEncode cs) = cs := by
  induction cs with
  | nil => rfl
  | cons c _ ih =>
    have hc : c.toNat ≤ 57 := by
      have hd := h c (mem_cons_self ..)
      simp only [Char.isDigit, Bool.and_eq_true, decide_eq_true_eq] at hd
      exact hd.2
    have hmod : (UInt8.ofNat c.toNat).toNat % 128 = c.toNat := by
      rw [UInt8.toNat_ofNat']
      omega
    have htail := ih fun c' hc' => h c' (mem_cons_of_mem _ hc')
    simp only [asciiDecode, asciiEncode, map_cons] at htail ⊢
    rw [hmod, Char.ofNat_toNat, htail]

theorem head_toDigits_ne_zero {n : ℕ} (hn : 0 < n) :
    ∃ c cs, Nat.toDigits 10 n = c :: cs ∧ c ≠ '0' := by
  induction n using Nat.strong_induction_on with
  | _ n ih =>
    by_cases hlt : n < 10
    · have hdigit : ∀ k < 10, 0 < k → k.digitChar ≠ '0' := by decide
      exact ⟨n.digitChar, [], Nat.toDigits_of_lt_base hlt, hdigit n hlt hn⟩
    · have hle : 10 ≤ n := by omega
      obtain ⟨c, cs, hcs, hc⟩ := ih (n / 10) (by omega) (by omega)
      refine ⟨c, cs ++ [(n % 10).digitChar], ?_, hc⟩
      rw [Nat.toDigits_of_base_le (by decide) hle, hcs]
      rfl

theorem isSizeText_toDigits {n : ℕ} (hn : 0 < n) : isSizeText (Nat.toDigits 10 n) := by
  have hall : ∀ c ∈ Nat.toDigits 10 n, c.isDigit :=
    fun c hc => Nat.isDigit_of_mem_toDigits (by decide) (by decide) hc
  obtain ⟨c, _, hcs, hne⟩ := head_toDigits_ne_zero hn
  rw [hcs] at hall ⊢
  simp only [isSizeText, Bool.and_eq_true, bne_iff_ne, all_eq_true]
  exact ⟨⟨hall c (mem_cons_self ..), hne⟩, fun c' hc' => hall c' (mem_cons_of_mem _ hc')⟩

variable (n : ℕ)

theorem asciiDecode_digits : asciiDecode (asciiEncode (Nat.toDigits 10 n)) = Nat.toDigits 10 n :=
  asciiDecode_asciiEncode fun _ hc => Nat.isDigit_of_mem_toDigits (by decide) (by decide) hc

theorem sizeNumber_digits : sizeNumber (asciiDecode (asciiEncode (Nat.toDigits 10 n))) = n := by
  rw [asciiDecode_digits, sizeNumber, Nat.ofDigitChars_ten_toDigits]

theorem chunkHeader_eq :
    chunkHeader n = 0x0A :: 0x23 :: (asciiEncode (Nat.toDigits 10 n) ++ [0x0A]) := by
  simp [chunkHeader, asciiEncode]

/-! ## Delimiters -/

namespace DelimiterFramer

variable {f : DelimiterFramer}

theorem isFrame_iff {m : Buffer} : f.IsFrame (encodeDelimiter m) m ↔
    m.length ≤ f.maxMessageSize ∧ indexOf delimiter (encodeDelimiter m) = some m.length := by
  rw [indexOf_eq_some_iff delimiter_ne_nil]
  simp [IsFrame, DelimiterAt, encodeDelimiter]

/-- A body that comes back as the message ends where the message ends: no delimiter stands in it,
and the `]` of one stands behind it. -/
theorem eq_body {body message x y : Buffer} (hframe : f.IsFrame (encodeDelimiter body) body)
    (htext : utf8Encode (utf8Decode body) = message)
    (h : body ++ (delimiter ++ x) = message ++ (delimiter ++ y)) : message = body := by
  obtain ⟨more, rfl, hmore⟩ | ⟨more, rfl, hmore⟩ := append_eq_append_iff.mp h
  · cases more with
    | nil => exact List.append_nil body
    | cons b _ =>
      obtain ⟨rfl, -⟩ := List.cons.inj hmore
      rw [← htext]
      rw [← String.ofList_toList (s := utf8Decode body)] at htext
      exact utf8Encode_utf8Decode (by decide) htext
  · by_cases hnil : more = []
    · rw [hnil, List.append_nil]
    · have hpre : delimiter <+: more ++ delimiter ++ x := ⟨y, by rw [hmore, append_assoc]⟩
      have hat := prefix_of_prefix_length_le hpre (prefix_append _ x) (by simp)
      refine absurd ?_ (hframe.2.2 message.length (by simp [length_pos_iff, hnil]))
      rwa [DelimiterAt, encodeDelimiter, append_assoc, drop_left]

theorem eq_bodies {bodies messages : List Buffer} {rest : Buffer}
    (hframe : ∀ body ∈ bodies, f.IsFrame (encodeDelimiter body) body)
    (htexts : bodies.map (fun body => utf8Encode (utf8Decode body)) = messages)
    (h : bodies.flatMap encodeDelimiter ++ rest = messages.flatMap encodeDelimiter) :
    messages = bodies := by
  induction bodies generalizing messages with
  | nil => exact htexts.symm
  | cons _ _ ih =>
    obtain ⟨hhead, htail⟩ := forall_mem_cons.mp hframe
    subst htexts
    simp only [map_cons, flatMap_cons, encodeDelimiter, append_assoc] at h ⊢
    have hbody := eq_body hhead rfl h
    rw [hbody] at h ⊢
    rw [ih htail rfl (append_cancel_left (append_cancel_left h))]

theorem push_encodeDelimiter (f : DelimiterFramer) (cut : List Buffer) :
    (∀ messages : List Buffer, cut.flatten = messages.flatMap encodeDelimiter →
      ((∃ msgs c, f.decoder.feed initial (Decoder.unbounded cut) = some ⟨msgs, .ok c⟩ ∧
          msgs.flatten.map Node.utf8Encode = messages) ↔
        ∀ m ∈ messages, utf8Encode (utf8Decode m) = m ∧ m.length ≤ f.maxMessageSize ∧
          indexOf delimiter (encodeDelimiter m) = some m.length)) ∧
    ∀ msgs c, f.decoder.feed initial (Decoder.unbounded cut) = some ⟨msgs, .ok c⟩ →
      ∃ bodies : List Buffer, msgs.flatten = bodies.map utf8Decode ∧
        cut.flatten = bodies.flatMap encodeDelimiter ++ c.buffer := by
  have hread {msgs c} (h : f.decoder.feed initial (Decoder.unbounded cut) = some ⟨msgs, .ok c⟩) :
      f.decoder.Steps ⟨(), cut.flatten⟩ msgs.flatten c := by
    have := Decoder.feed_ok decoder_stable h
    rwa [Decoder.input_unbounded] at this
  simp only [← isFrame_iff]
  refine ⟨fun messages hcut => ⟨?_, fun hframe => ?_⟩, fun msgs c h => ?_⟩
  · rintro ⟨_, c, h, htexts⟩
    obtain ⟨_, heq, hbodies, hframe⟩ := bodies_of_steps (hread h)
    rw [hbodies, map_map] at htexts
    obtain rfl := eq_bodies hframe htexts (heq.symm.trans hcut)
    exact fun m hm => ⟨map_inj_left.mp (htexts.trans messages.map_id.symm) m hm, hframe m hm⟩
  · have hsteps := Decoder.Steps.flatMap messages encodeDelimiter utf8Decode
      (fun m hm rest => steps_frame (hframe m hm).2 rest) []
    rw [List.append_nil, ← hcut, ← Decoder.input_unbounded] at hsteps
    obtain ⟨msgs, c, h, hall⟩ := Decoder.feed_of_drained decoder_stable decoder_progress
      (c := initial) hsteps (next_nil (f := f)) (next_nil (f := f))
    refine ⟨msgs, c, h, ?_⟩
    rw [(hall (by simp [Decoder.Drained, Decoder.unbounded])).1, map_map]
    exact (map_inj_left.mpr fun m hm => (hframe m hm).1).trans messages.map_id
  · obtain ⟨bodies, heq, hbodies, -⟩ := bodies_of_steps (hread h)
    exact ⟨bodies, hbodies, heq⟩

/-- A message above the size limit is not returned, although no delimiter stands in it. -/
theorem large_message_thrown : let f : DelimiterFramer := { maxMessageSize := 1 }
    indexOf delimiter (encodeDelimiter [0x61, 0x62]) = some 2 ∧
      f.decoder.feed initial (Decoder.unbounded [encodeDelimiter [0x61, 0x62]]) =
        some ⟨[], .error f.tooLarge⟩ :=
  ⟨by decide, rfl⟩

end DelimiterFramer

/-! ## Frames -/

namespace ChunkedFramer

variable {f : ChunkedFramer} {body bytes : Buffer} {chunkSize size : ℕ}

theorem goodSize_digits {n : ℕ} (hn : 0 < n) (h32 : n ≤ 0xFFFFFFFF) (hc : n ≤ f.maxChunkSize)
    (hm : size + n ≤ f.maxMessageSize) : f.GoodSize size (asciiEncode (Nat.toDigits 10 n)) where
  isSizeText := by
    rw [asciiDecode_digits]
    exact isSizeText_toDigits hn
  le_max := by rwa [sizeNumber_digits]
  le_maxChunkSize := by rwa [sizeNumber_digits]
  le_maxMessageSize := by rwa [sizeNumber_digits]

/-- The loop of the encoder writes the chunks of what is left of the body. -/
theorem chunks_encodeChunks (hpos : 0 < chunkSize) (h32 : chunkSize ≤ 0xFFFFFFFF) {fuel : ℕ}
    (rest : Buffer) (hfuel : rest.length ≤ fuel) (hc : min chunkSize rest.length ≤ f.maxChunkSize)
    (hm : size + rest.length ≤ f.maxMessageSize) :
    ∃ bodies, f.Chunks size (encodeChunks chunkSize fuel rest) bodies ∧ bodies.flatten = rest := by
  induction fuel generalizing rest size with
  | zero =>
    have hnil : rest = [] := length_eq_zero_iff.mp (by omega)
    exact ⟨[], .nil _, hnil.symm⟩
  | succ _ ih =>
    rw [encodeChunks]
    split
    · rename_i hnil
      exact ⟨[], .nil _, hnil.symm⟩
    · rename_i hne
      have hrest := length_pos_iff.mpr hne
      have hlen : (rest.take chunkSize).length = min chunkSize rest.length := length_take
      have hdrop : (rest.drop chunkSize).length = rest.length - chunkSize := length_drop
      have hm' : size + (rest.take chunkSize).length + (rest.drop chunkSize).length ≤
          f.maxMessageSize := by omega
      obtain ⟨bodies, hchs, hflat⟩ := ih _ (by omega) (by omega) hm'
      have hgood : f.GoodSize size
          (asciiEncode (Nat.toDigits 10 (rest.take chunkSize).length)) :=
        goodSize_digits (by omega) (by omega) (by omega) (by omega)
      refine ⟨rest.take chunkSize :: bodies, ?_, ?_⟩
      · have hcons := Chunks.cons hgood (sizeNumber_digits _).symm hchs
        rw [chunkHeader_eq]
        simpa using hcons
      · rw [flatten_cons, hflat, take_append_drop]

theorem isFrame_encodeChunked (henc : encodeChunked body chunkSize = .ok bytes)
    (hpos : 1 ≤ chunkSize) (hc : min chunkSize body.length ≤ f.maxChunkSize)
    (hm : body.length ≤ f.maxMessageSize) : f.IsFrame bytes body := by
  unfold encodeChunked at henc
  rw [orDefault, if_neg (by omega : chunkSize ≠ 0)] at henc
  split at henc
  · cases henc
  · rename_i hne
    dsimp only at henc
    split at henc
    · cases henc
    · cases henc
      obtain ⟨bodies, hchs, rfl⟩ := chunks_encodeChunks (by omega : 0 < chunkSize)
        (by omega) body le_rfl hc (by omega : 0 + body.length ≤ _)
      refine ⟨_, bodies, rfl, hchs, ?_, rfl⟩
      rintro rfl
      exact hne rfl

theorem steps_encoded {messages : List (String × ℕ)} {frames : List Buffer}
    (hcs : ∀ m ∈ messages, 1 ≤ m.2)
    (henc : List.Forall₂ (fun m bytes => encodeChunked (utf8Encode m.1) m.2 = .ok bytes)
      messages frames) (hchunk : ∀ m ∈ messages, min m.2 (utf8Encode m.1).length ≤ f.maxChunkSize)
    (hmsg : ∀ m ∈ messages, (utf8Encode m.1).length ≤ f.maxMessageSize) :
    f.decoder.Steps ⟨.empty, frames.flatten⟩ (messages.map Prod.fst) ⟨.empty, []⟩ := by
  induction henc with
  | nil => exact .refl _
  | @cons m bytes messages frames hm _ ih =>
    simp only [forall_mem_cons] at hcs hchunk hmsg
    have hframe := isFrame_encodeChunked hm hcs.1 hchunk.1 hmsg.1
    have hhead := steps_frame hframe frames.flatten
    rw [utf8Decode_utf8Encode] at hhead
    exact hhead.trans (ih hcs.2 hchunk.2 hmsg.2)

/-- Every cutting of the encodings into deliveries, with any bounds on the messages of a delivery,
is read without a failure; once drained, the deliveries have returned the messages in order and
nothing is left over. Further empty deliveries, more than there are messages, always drain. -/
theorem push_encodeChunked (f : ChunkedFramer) (messages : List (String × ℕ))
    (frames : List Buffer) (hcs : ∀ m ∈ messages, 1 ≤ m.2)
    (henc : List.Forall₂ (fun m bytes => encodeChunked (utf8Encode m.1) m.2 = .ok bytes)
      messages frames)
    (hchunk : ∀ m ∈ messages, min m.2 (utf8Encode m.1).length ≤ f.maxChunkSize)
    (hmsg : ∀ m ∈ messages, (utf8Encode m.1).length ≤ f.maxMessageSize)
    (calls : List (Buffer × Limit)) (hcut : Decoder.input calls = frames.flatten) :
    (∃ msgs c, f.decoder.feed initial calls = some ⟨msgs, .ok c⟩ ∧
      (Decoder.Drained calls msgs →
        msgs.flatten = messages.map Prod.fst ∧ c.buffer = [] ∧ c.ctl = .empty)) ∧
    ∀ limits : List Limit, messages.length < limits.length →
      ∃ msgs c, f.decoder.feed initial (calls ++ limits.map ([], ·)) = some ⟨msgs, .ok c⟩ ∧
        Decoder.Drained (calls ++ limits.map ([], ·)) msgs := by
  have hsteps := steps_encoded hcs henc hchunk hmsg
  have hstart : f.decoder.Steps (initial.append (Decoder.input calls))
      (messages.map Prod.fst) ⟨.empty, []⟩ := by
    rw [hcut]
    exact hsteps
  have hnil : f.next .empty [] = .wait := next_nil rfl
  constructor
  · obtain ⟨msgs, c, hfeed, hdone⟩ :=
      Decoder.feed_of_drained decoder_stable decoder_progress hstart hnil hnil
    refine ⟨msgs, c, hfeed, fun hdr => ?_⟩
    obtain ⟨hmsgs, rfl⟩ := hdone hdr
    exact ⟨hmsgs, rfl, rfl⟩
  · intro limits hlen
    obtain ⟨msgs, c, rest, hfeed, hms, hrest⟩ :=
      Decoder.feed_of_steps_wait decoder_stable decoder_progress hstart hnil
    have hlen' : rest.length < limits.length := by
      have hsum := congrArg List.length hms
      rw [length_append, length_map] at hsum
      omega
    obtain ⟨msgs', c', hfeed', hdr⟩ := Decoder.drained_of_empty_deliveries decoder_stable
      decoder_progress hrest hnil hlen'
    refine ⟨msgs ++ msgs', c', ?_, ?_⟩
    · rw [Decoder.feed_append hfeed, hfeed']
      rfl
    · intro call hcall ms hms'
      have hne' : limits ≠ [] := ne_nil_of_length_pos (by omega)
      have hlast := Decoder.feed_length hfeed'
      rw [getLast?_append_of_ne_nil _ (by simpa using hne')] at hcall
      rw [getLast?_append_of_ne_nil _
        (ne_nil_of_length_pos (by rw [hlast, length_map]; omega))] at hms'
      exact hdr call hcall ms hms'

/-- Two chunks of one byte each, cut inside the second header. -/
theorem push_encodeChunked_hi :
    ∃ msgs c, (create {}).decoder.feed initial
        [([10, 35, 49, 10, 104, 10, 35], some 1), ([49, 10, 105, 10, 35, 35, 10], none)] =
          some ⟨msgs, .ok c⟩ ∧
      (Decoder.Drained
          [([(10 : UInt8), 35, 49, 10, 104, 10, 35], some 1),
            ([49, 10, 105, 10, 35, 35, 10], none)] msgs →
        msgs.flatten = ["hi"] ∧ c.buffer = [] ∧ c.ctl = .empty) :=
  (push_encodeChunked _ [("hi", 1)]
    [[10, 35, 49, 10, 104, 10, 35, 49, 10, 105, 10, 35, 35, 10]] (by decide)
    (.cons rfl .nil) (by decide) (by decide)
    [([10, 35, 49, 10, 104, 10, 35], some 1), ([49, 10, 105, 10, 35, 35, 10], none)] rfl).1

end ChunkedFramer

end Netconf
