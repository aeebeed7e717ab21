import NetNexus.Bmp.Framing
import NetNexus.Stream.Proofs.DecoderProofs

/-!
# Frames of a BMP stream

The receiver refines a decoder that looks at the bytes of the stream only. So the frames do not
depend on how the stream is cut, and the blocks hold exactly what has arrived of the next frame.
-/

namespace Bmp

open List Node Session Stream

/-! ## Blocks -/

/-- The blocks hold the content, all but the last one are full, and they are not larger than the
limit. -/
structure Filled (limit : ℕ) (state : FrameState) (content : Buffer) : Prop where
  holds : state.blocks.flatMap Block.bytes = content
  bytes : state.bytes = content.length
  capacity : (state.blocks.map Block.size).sum = state.capacity
  full : ∀ block ∈ state.blocks.dropLast, block.bytes.length = block.size
  fits : ∀ block ∈ state.blocks.getLast?, block.bytes.length ≤ block.size
  limit : state.capacity ≤ limit

variable {limit : ℕ} {state : FrameState} {content data : Buffer}

theorem length_flatMap_full {blocks : List Block}
    (h : ∀ block ∈ blocks, block.bytes.length = block.size) :
    (blocks.flatMap Block.bytes).length = (blocks.map Block.size).sum := by
  rw [length_flatMap]
  exact congrArg List.sum (map_congr_left h)

/-- What `openBlock` gives: a block with room, and the full blocks before it. -/
structure Opened (limit : ℕ) (state : FrameState) (content : Buffer)
    (opened : FrameState × List Block × Block) : Prop where
  holds : opened.2.1.flatMap Block.bytes ++ opened.2.2.bytes = content
  full : ∀ block ∈ opened.2.1, block.bytes.length = block.size
  room : opened.2.2.bytes.length < opened.2.2.size
  capacity : (opened.2.1.map Block.size).sum + opened.2.2.size = opened.1.capacity
  limit : opened.1.capacity ≤ limit
  bytes : opened.1.bytes = state.bytes
  length : opened.1.length = state.length
  closed : opened.1.closed = state.closed

theorem opened_fresh (h : Filled limit state content) (hlen : content.length < limit)
    (hfull : ∀ block ∈ state.blocks, block.bytes.length = block.size) : Opened limit state content
      ({ state with capacity := state.capacity + min bufferBlockBytes (limit - state.capacity) },
        state.blocks, { size := min bufferBlockBytes (limit - state.capacity) }) := by
  have hcap : state.capacity = content.length := by
    rw [← h.capacity, ← h.holds, length_flatMap_full hfull]
  have hsize : 0 < min bufferBlockBytes (limit - state.capacity) := by
    have hblock : 0 < bufferBlockBytes := by decide
    omega
  refine ⟨?_, hfull, hsize, ?_, ?_, rfl, rfl, rfl⟩
  · rw [List.append_nil]
    exact h.holds
  · rw [h.capacity]
  · show state.capacity + min bufferBlockBytes _ ≤ limit
    omega

theorem openBlock_opened (h : Filled limit state content) (hlen : content.length < limit) :
    Opened limit state content (state.openBlock limit) := by
  unfold FrameState.openBlock
  cases hlast : state.blocks.getLast? with
  | none =>
    have hnil : state.blocks = [] := getLast?_eq_none_iff.mp hlast
    refine opened_fresh h hlen ?_
    rw [hnil]
    exact nofun
  | some block =>
    have hblks : state.blocks.dropLast ++ [block] = state.blocks :=
      dropLast_append_getLast? block hlast
    dsimp only
    by_cases hsize : block.bytes.length = block.size
    · rw [if_pos hsize]
      refine opened_fresh h hlen ?_
      intro other hother
      rw [← hblks, mem_append, mem_singleton] at hother
      rcases hother with hother | rfl
      · exact h.full other hother
      · exact hsize
    · rw [if_neg hsize]
      have hfits := h.fits block (by rw [hlast]; rfl)
      have hcont := h.holds
      have hcap := h.capacity
      rw [← hblks, flatMap_append, flatMap_singleton] at hcont
      rw [← hblks] at hcap
      have hroom : block.bytes.length < block.size := by omega
      refine ⟨hcont, h.full, hroom, ?_, h.limit, rfl, rfl, rfl⟩
      simpa using hcap

theorem appendLoop_filled {fuel : ℕ} (hfuel : data.length ≤ fuel) (h : Filled limit state content)
    (hlength : content.length + data.length ≤ limit) :
    ∃ after, appendLoop limit fuel state data = some after ∧
      Filled limit after (content ++ data) ∧ after.length = state.length ∧
      after.closed = state.closed := by
  induction fuel generalizing state content data with
  | zero =>
    obtain rfl : data = [] := length_eq_zero_iff.mp (by omega)
    refine ⟨state, ?_, ?_, rfl, rfl⟩
    · rw [appendLoop]
    · rwa [List.append_nil]
  | succ _ ih =>
    by_cases hdata : data = []
    · subst hdata
      refine ⟨state, ?_, ?_, rfl, rfl⟩
      · rw [appendLoop]
      · rwa [List.append_nil]
    · have hpos : 0 < data.length := length_pos_iff.mpr hdata
      have hopened := openBlock_opened h (by omega)
      rcases hopen : state.openBlock limit with ⟨opened, before, block⟩
      rw [hopen] at hopened
      obtain ⟨hcont, hfull, hroom, hcap, hlimit, hbytes, hlen, hcl⟩ := hopened
      dsimp only at hfull hroom
      set copied := min data.length (block.size - block.bytes.length) with hcopied
      have hle : copied ≤ data.length := by omega
      have hfill : Filled limit
          { opened with
            blocks := before ++ [{ block with bytes := block.bytes ++ data.take copied }]
            bytes := opened.bytes + copied } (content ++ data.take copied) := by
        refine ⟨?_, ?_, ?_, ?_, ?_, hlimit⟩
        · simp only [flatMap_append, flatMap_singleton]
          rw [← append_assoc, hcont]
        · rw [hbytes, h.bytes, length_append, length_take, Nat.min_eq_left hle]
        · simpa using hcap
        · intro other hother
          rw [dropLast_concat] at hother
          exact hfull other hother
        · intro other hother
          rw [getLast?_concat, Option.mem_some_iff] at hother
          subst hother
          simp only [length_append, length_take]
          omega
      obtain ⟨after, hafter, hres, hlength', hcl'⟩ :=
        @ih _ _ (data.drop copied) (by rw [length_drop]; omega) hfill (by
          rw [length_append, length_take, length_drop]
          omega)
      refine ⟨after, ?_, ?_, hlength'.trans hlen, hcl'.trans hcl⟩
      · rw [appendLoop, hopen]
        · exact hafter
        · exact hdata
      · rwa [append_assoc, take_append_drop] at hres

/-- The state that holds a part of a header. -/
def shortState (content : Buffer) : FrameState :=
  { blocks := if content = [] then [] else [⟨headerLength, content⟩]
    bytes := content.length
    capacity := if content = [] then 0 else headerLength }

theorem shortState_of_ne_nil (h : content ≠ []) : shortState content =
    { blocks := [⟨headerLength, content⟩], bytes := content.length, capacity := headerLength } := by
  rw [shortState, if_neg h, if_neg h]

/-- The only block of a header is large enough for it. -/
theorem appendFrameBytes_short (h : content.length + data.length ≤ headerLength) :
    appendFrameBytes (shortState content) data headerLength =
      some (shortState (content ++ data)) := by
  by_cases hdata : data = []
  · subst hdata
    rw [List.append_nil, appendFrameBytes, appendLoop]
  · have hpos : 0 < data.length := length_pos_iff.mpr hdata
    obtain ⟨n, hn⟩ : ∃ n, data.length = n + 1 := ⟨data.length - 1, by omega⟩
    have hne : content ++ data ≠ [] := by simp [hdata]
    have hopen : (shortState content).openBlock headerLength =
        ({ shortState content with capacity := headerLength }, [], ⟨headerLength, content⟩) := by
      by_cases hcont : content = []
      · subst hcont
        rfl
      · have hroom : content.length ≠ headerLength := by omega
        rw [shortState_of_ne_nil hcont]
        show (if content.length = headerLength then _ else _) = _
        rw [if_neg hroom]
        rfl
    have hcopied : min data.length (headerLength - content.length) = data.length := by omega
    rw [appendFrameBytes, hn, appendLoop, hopen]
    · dsimp only
      rw [hcopied, take_length, drop_length, appendLoop, shortState_of_ne_nil hne, length_append]
      rfl
    · exact hdata

theorem filled_shortState (h : content.length ≤ headerLength) (hlimit : headerLength ≤ limit)
    (length : ℕ) : Filled limit { shortState content with length } content := by
  by_cases hcont : content = []
  · subst hcont
    exact ⟨rfl, rfl, rfl, nofun, fun _ hmem => absurd hmem (by simp [shortState]), Nat.zero_le _⟩
  · rw [shortState_of_ne_nil hcont]
    refine ⟨?_, rfl, rfl, nofun, ?_, hlimit⟩
    · exact flatMap_singleton ..
    · intro block hblock
      cases hblock
      exact h

theorem bufferedFrame_eq (h : Filled limit state content) : bufferedFrame state = content := by
  have hholds := h.holds
  have hbytes := h.bytes
  unfold bufferedFrame
  split
  · rename_i hblks
    rw [hblks] at hholds
    exact hholds
  · rename_i hblks
    rw [hblks, flatMap_singleton] at hholds
    rw [hbytes, hholds, take_length]
  · have hflat : (state.blocks.map Block.bytes).flatten = content := hholds
    rw [Node.concat, hflat, hbytes, Nat.sub_self, replicate_zero, List.append_nil, take_length]

/-! ## The decoder -/

theorem lengthField_append (h : headerLength ≤ content.length) (more : Buffer) :
    lengthField (content ++ more) = lengthField content := by
  unfold headerLength at h
  rw [lengthField, drop_append_of_le_length (by omega),
    take_append_of_le_length (by rw [length_drop]; omega), lengthField]

theorem versionField_append (h : headerLength ≤ content.length) (more : Buffer) :
    versionField (content ++ more) = versionField content := by
  cases content with
  | nil => exact absurd h (by decide)
  | cons b _ => rfl

theorem validHeader_append (h : headerLength ≤ content.length) (more : Buffer) :
    ValidHeader (content ++ more) ↔ ValidHeader content := by
  rw [ValidHeader, ValidHeader, lengthField_append h, versionField_append h]

variable {σ : Type} (handlers : Handlers σ)

/-- What a session does with a stream. The control state is that of the session and whether it is
closed, in which case nothing is looked at any more. -/
def frameDecoder : Decoder UInt8 (σ × Bool) Buffer Empty where
  next ctl buffer :=
    if ctl.2 ∨ buffer.length < headerLength then .wait
    else if ValidHeader buffer then
      if lengthField buffer ≤ buffer.length then
        .take (lengthField buffer)
          (processMessage handlers ctl.1 (buffer.take (lengthField buffer)))
          (some (buffer.take (lengthField buffer)))
      else .wait
    else .take headerLength (ctl.1, true) none

/-- How the decoder decides, by the branch it takes. -/
inductive Decides (inner : σ) (buffer : Buffer) : Verdict (σ × Bool) Buffer Empty → Prop where
  | short (h : buffer.length < headerLength) : Decides inner buffer .wait
  | incomplete (hhdr : headerLength ≤ buffer.length) (hvalid : ValidHeader buffer)
      (h : buffer.length < lengthField buffer) : Decides inner buffer .wait
  | frame (hhdr : headerLength ≤ buffer.length) (hvalid : ValidHeader buffer)
      (h : lengthField buffer ≤ buffer.length) :
      Decides inner buffer (.take (lengthField buffer)
        (processMessage handlers inner (buffer.take (lengthField buffer)))
        (some (buffer.take (lengthField buffer))))
  | invalid (hhdr : headerLength ≤ buffer.length) (hvalid : ¬ ValidHeader buffer) :
      Decides inner buffer (.take headerLength (inner, true) none)

theorem next_closed (inner : σ) (buffer : Buffer) :
    (frameDecoder handlers).next (inner, true) buffer = .wait := by
  simp [frameDecoder]

theorem next_decides (inner : σ) (buffer : Buffer) :
    Decides handlers inner buffer ((frameDecoder handlers).next (inner, false) buffer) := by
  dsimp only [frameDecoder]
  by_cases hshort : buffer.length < headerLength
  · rw [if_pos (.inr hshort)]
    exact .short hshort
  · have hopen : ¬ (false = true ∨ buffer.length < headerLength) := by simpa using hshort
    rw [if_neg hopen]
    by_cases hvalid : ValidHeader buffer
    · rw [if_pos hvalid]
      by_cases hlen : lengthField buffer ≤ buffer.length
      · rw [if_pos hlen]
        exact .frame (by omega) hvalid hlen
      · rw [if_neg hlen]
        exact .incomplete (by omega) hvalid (by omega)
    · rw [if_neg hvalid]
      exact .invalid (by omega) hvalid

variable {inner : σ}

theorem next_eq_of_decides {buffer : Buffer} {verdict : Verdict (σ × Bool) Buffer Empty}
    (h : Decides handlers inner buffer verdict) :
    (frameDecoder handlers).next (inner, false) buffer = verdict := by
  have hnext := next_decides handlers inner buffer
  generalize (frameDecoder handlers).next _ buffer = found at hnext
  cases h <;> cases hnext <;> first | rfl | contradiction | omega

/-- Only an open session takes bytes. -/
theorem decides_of_take {ctl ctl' : σ × Bool} {buffer : Buffer} {n : ℕ} {out : Option Buffer}
    (h : (frameDecoder handlers).next ctl buffer = .take n ctl' out) :
    ctl = (ctl.1, false) ∧ Decides handlers ctl.1 buffer (.take n ctl' out) := by
  obtain ⟨inner, closed⟩ := ctl
  cases closed with
  | true =>
    cases h
  | false => exact ⟨rfl, h ▸ next_decides handlers inner buffer⟩

theorem stable_frameDecoder : (frameDecoder handlers).Stable (id : Empty → Empty) where
  take_append := by
    intro ctl buffer n ctl' out h more
    obtain ⟨hopen, hdeci⟩ := decides_of_take handlers h
    rw [hopen]
    refine next_eq_of_decides handlers ?_
    cases hdeci with
    | frame hhdr hvalid hlen =>
      have hframe : (buffer ++ more).take (lengthField buffer) =
          buffer.take (lengthField buffer) := take_append_of_le_length hlen
      have hfield := lengthField_append hhdr more
      have hdeci : Decides handlers ctl.1 (buffer ++ more) _ :=
        .frame (by rw [length_append]; omega) ((validHeader_append hhdr more).mpr hvalid)
          (by rw [length_append]; omega)
      rwa [hfield, hframe] at hdeci
    | invalid hhdr hvalid =>
      exact .invalid (by rw [length_append]; omega)
        (mt (validHeader_append hhdr more).mp hvalid)
  take_le := by
    intro ctl buffer n ctl' out h
    cases (decides_of_take handlers h).2 with
    | frame _ _ hlen => exact hlen
    | invalid hhdr _ => exact hhdr
  fail_append := fun {_ _ _ e} _ => e.elim

/-! ## The receiver -/

/-- The state holds the content, which is less than a frame. -/
inductive Holds : FrameState → Buffer → Prop where
  | short {state : FrameState} {content : Buffer} (hstate : state = shortState content)
      (h : content.length < headerLength) : Holds state content
  | long {state : FrameState} {content : Buffer} (hhdr : headerLength ≤ content.length)
      (hvalid : ValidHeader content) (hclosed : state.closed = false)
      (hlength : state.length = lengthField content) (hless : content.length < lengthField content)
      (hfilled : Filled (lengthField content) state content) : Holds state content

/-- The session is in the state of a decoder. Nothing is kept of a closed session. -/
structure Represents (c : Buffered UInt8 (σ × Bool)) (session : Session σ) : Prop where
  inner : session.inner = c.ctl.1
  closed : c.ctl.2 = true → session.state = { closed := true }
  holds : c.ctl.2 = false → Holds session.state c.buffer

variable {handlers}

theorem Holds.closed_eq (h : Holds state content) : state.closed = false := by
  cases h with
  | short hstate h =>
    rw [hstate]
    rfl
  | long _ _ hcl _ _ _ => exact hcl

theorem Holds.filled (h : Holds state content) : ∃ limit, Filled limit state content := by
  cases h with
  | short hstate hlen =>
    rw [hstate]
    exact ⟨_, filled_shortState hlen.le (le_rfl) 0⟩
  | long _ _ _ _ _ hfill => exact ⟨_, hfill⟩

theorem Holds.bytes_eq (h : Holds state content) : state.bytes = content.length :=
  h.filled.choose_spec.bytes

theorem Holds.next_eq (h : Holds state content) (inner : σ) :
    (frameDecoder handlers).next (inner, false) content = .wait := by
  refine next_eq_of_decides handlers ?_
  cases h with
  | short _ h => exact .short h
  | long hhdr hvalid _ _ hless _ => exact .incomplete hhdr hvalid hless

variable {c : Buffered UInt8 (σ × Bool)} {session : Session σ}

theorem Represents.next_eq (h : Represents c session) :
    (frameDecoder handlers).next c.ctl c.buffer = .wait := by
  obtain ⟨⟨inner, closed⟩, buffer⟩ := c
  cases closed with
  | true => exact next_closed handlers inner buffer
  | false => exact (h.holds rfl).next_eq inner

theorem represents_handOn (session : Session σ) (hstate : session.state = {}) (frame : Buffer) :
    Represents ⟨processMessage handlers session.inner frame, []⟩
      (session.handOn handlers frame) := by
  rcases hproc : processMessage handlers session.inner frame with ⟨inner, closed⟩
  have hhand : session.handOn handlers frame =
      { inner, frames := session.frames ++ [frame]
        state := if closed then { closed := true } else session.state } := by
    rw [handOn, hproc]
  rw [hhand]
  refine ⟨rfl, ?_, ?_⟩
  · rintro rfl
    rfl
  · rintro rfl
    rw [hstate]
    exact @Holds.short _ [] rfl (by decide)

/-- What a round of the loop does, where the decoder has `whole` in front of it. -/
inductive Rounds (handlers : Handlers σ) (session : Session σ) (whole : Buffer) (bound : ℕ) :
    Session.Round σ → Prop where
  | stop {c : Buffered UInt8 (σ × Bool)} {after : Session σ}
      (steps : (frameDecoder handlers).Steps ⟨(session.inner, false), whole⟩ [] c)
      (represents : Represents c after) (frames : after.frames = session.frames) :
      Rounds handlers session whole bound (.stop after)
  | again {ctl : σ × Bool} {after : Session σ} {frame later : Buffer}
      (steps : (frameDecoder handlers).Steps ⟨(session.inner, false), whole⟩ [frame] ⟨ctl, later⟩)
      (represents : Represents ⟨ctl, []⟩ after) (frames : after.frames = session.frames ++ [frame])
      (less : later.length < bound) : Rounds handlers session whole bound (.again after later)

variable {frame rest : Buffer}

theorem steps_frame (hhdr : headerLength ≤ frame.length) (hvalid : ValidHeader frame)
    (hlen : frame.length = lengthField frame) :
    (frameDecoder handlers).Steps ⟨(inner, false), frame ++ rest⟩ [frame]
      ⟨processMessage handlers inner frame, rest⟩ := by
  have hfield : lengthField (frame ++ rest) = frame.length := by
    rw [lengthField_append hhdr, hlen]
  have hdeci : Decides handlers inner (frame ++ rest) _ :=
    .frame (by rw [length_append]; omega) ((validHeader_append hhdr rest).mpr hvalid)
      (by rw [length_append]; omega)
  have hnext := next_eq_of_decides handlers hdeci
  rw [hfield, take_left' rfl] at hnext
  have hstep := Decoder.Steps.single (c := ⟨(inner, false), frame ++ rest⟩) hnext
  rwa [drop_left' rfl] at hstep

theorem steps_invalid {buffer : Buffer} (hhdr : headerLength ≤ buffer.length)
    (hvalid : ¬ ValidHeader buffer) : (frameDecoder handlers).Steps ⟨(inner, false), buffer⟩ []
      ⟨(inner, true), buffer.drop headerLength⟩ := by
  have hdeci : Decides handlers inner buffer _ := .invalid hhdr hvalid
  have hnext := next_eq_of_decides handlers hdeci
  exact Decoder.Steps.single (c := ⟨(inner, false), buffer⟩) hnext

theorem represents_holds (h : Holds session.state content) :
    Represents ⟨(session.inner, false), content⟩ session :=
  ⟨rfl, nofun, fun _ => h⟩

theorem recvBody_rounds {bound : ℕ} (hhdr : headerLength ≤ content.length)
    (hvalid : ValidHeader content) (hcl : session.state.closed = false)
    (hlen : session.state.length = lengthField content)
    (hle : content.length ≤ lengthField content)
    (hfill : Filled (lengthField content) session.state content) (hbound : rest.length < bound ∨
      0 < rest.length ∧ rest.length = bound ∧ content.length < lengthField content) :
    ∃ round, session.recvBody handlers rest = some round ∧
      Rounds handlers session (content ++ rest) bound round := by
  set count := min (lengthField content - content.length) rest.length with hcount
  have htake : (rest.take count).length = count := by
    rw [length_take]
    omega
  obtain ⟨state, happ, hstate, hlen', hcl'⟩ :=
    appendLoop_filled (le_rfl) hfill
      (show content.length + (rest.take count).length ≤ lengthField content by omega)
  have hbytes : state.bytes = content.length + count := by
    rw [hstate.bytes, length_append, htake]
  have hfield : lengthField (content ++ rest.take count) = lengthField content :=
    lengthField_append hhdr _
  have hvalid' : ValidHeader (content ++ rest.take count) :=
    (validHeader_append hhdr _).mpr hvalid
  have hhdr' : headerLength ≤ (content ++ rest.take count).length := by
    rw [length_append]
    omega
  have hbody : session.recvBody handlers rest =
      if state.bytes < state.length then some (.stop { session with state })
      else some (.again (handOn handlers
        { session with state := { closed := state.closed } } (bufferedFrame state))
        (rest.drop count)) := by
    have happ' : appendFrameBytes session.state (rest.take count) (lengthField content) =
        some state := happ
    rw [recvBody, hlen, hfill.bytes]
    rw [happ']
    show (if state.bytes < state.length then _ else _) = _
    split <;> rfl
  rw [hbody, hlen', hlen, hbytes]
  by_cases hless : content.length + count < lengthField content
  · -- all that has arrived is kept
    rw [if_pos hless]
    have hall : rest.take count = rest := take_of_length_le (by omega)
    rw [hall] at hstate hfield hvalid' hhdr'
    have hholds : Holds state (content ++ rest) := by
      refine .long hhdr' hvalid' (hcl'.trans hcl) ?_ ?_ ?_
      · rw [hlen', hlen, hfield]
      · rw [length_append]
        omega
      · rwa [hfield]
    exact ⟨_, rfl, .stop (.refl _) (@represents_holds _ _ { session with state } hholds) rfl⟩
  · rw [if_neg hless]
    have hexact :
        (content ++ rest.take count).length = lengthField (content ++ rest.take count) := by
      rw [length_append]
      omega
    have hsteps := @steps_frame σ handlers session.inner _ (rest.drop count) hhdr' hvalid' hexact
    rw [append_assoc, take_append_drop] at hsteps
    have hempty : ({ closed := state.closed } : FrameState) = {} := by
      rw [hcl', hcl]
    rw [bufferedFrame_eq hstate]
    refine ⟨_, rfl, .again hsteps ?_ rfl ?_⟩
    · exact represents_handOn { session with state := { closed := state.closed } } hempty _
    · rw [length_drop]
      omega

theorem Rounds.congr {session' : Session σ} {whole : Buffer} {bound : ℕ} {round : Session.Round σ}
    (h : Rounds handlers session whole bound round) (hinner : session.inner = session'.inner)
    (hfrs : session.frames = session'.frames) : Rounds handlers session' whole bound round := by
  cases h with
  | stop steps represents frames =>
    exact .stop (hinner ▸ steps) represents (frames.trans hfrs)
  | again steps represents frames less =>
    exact .again (hinner ▸ steps) represents (hfrs ▸ frames) less

/-- What a round does with a header that is not complete, by what has become of it. -/
theorem recvBuffered_short {count : ℕ} {header : Buffer}
    (hstate : session.state = shortState content) (hshort : content.length < headerLength)
    (hcount : count = min (headerLength - content.length) rest.length)
    (hhdr : header = content ++ rest.take count) : session.recvBuffered handlers rest =
      if header.length < headerLength then
        some (.stop { session with state := shortState header })
      else if ValidHeader header then
        recvBody handlers
          { session with state := { shortState header with length := lengthField header } }
          (rest.drop count)
      else some (.stop (closeSession session)) := by
  have hbytes : session.state.bytes = content.length := by
    rw [hstate]
    rfl
  have hpart : ¬ headerLength ≤ session.state.bytes := by omega
  have happ : appendFrameBytes session.state (rest.take count) headerLength =
      some (shortState header) := by
    rw [hstate, hhdr]
    refine appendFrameBytes_short ?_
    rw [length_take]
    omega
  rw [recvBuffered, if_neg hpart, hbytes, ← hcount]
  dsimp only
  rw [happ]
  show (if header.length < headerLength then _ else _) = _
  by_cases hless : header.length < headerLength
  · rw [if_pos hless, if_pos hless]
    rfl
  · have hne : header ≠ [] := by
      intro hnil
      rw [hnil] at hless
      exact hless (by decide)
    have hhead : ((shortState header).blocks.headD { size := 0 }).bytes = header := by
      rw [shortState_of_ne_nil hne]
      rfl
    rw [if_neg hless, if_neg hless, hhead]
    rfl

theorem recvBuffered_rounds (hholds : Holds session.state content) (hrest : rest ≠ []) :
    ∃ round, session.recvBuffered handlers rest = some round ∧
      Rounds handlers session (content ++ rest) rest.length round := by
  have hpos : 0 < rest.length := length_pos_iff.mpr hrest
  cases hholds with
  | long hhdr hvalid hcl hlen hless hfill =>
    have hbytes : headerLength ≤ session.state.bytes := by
      rw [hfill.bytes]
      exact hhdr
    rw [recvBuffered, if_pos hbytes]
    exact recvBody_rounds hhdr hvalid hcl hlen (by omega) hfill (.inr ⟨hpos, rfl, hless⟩)
  | short hstate hshort =>
    obtain ⟨count, hcount⟩ : ∃ count, count = min (headerLength - content.length) rest.length :=
      ⟨_, rfl⟩
    obtain ⟨header, hhdr⟩ : ∃ header, header = content ++ rest.take count := ⟨_, rfl⟩
    have hlen : header.length = content.length + count := by
      rw [hhdr, length_append, length_take]
      omega
    have hwhole : content ++ rest = header ++ rest.drop count := by
      rw [hhdr, append_assoc, take_append_drop]
    rw [recvBuffered_short hstate hshort hcount hhdr]
    by_cases hless : header.length < headerLength
    · have hall : header = content ++ rest := by
        rw [hhdr, take_of_length_le (by omega)]
      rw [if_pos hless, ← hall]
      exact ⟨_, rfl, .stop (.refl _)
        (@represents_holds _ _ { session with state := _ } (.short rfl hless)) rfl⟩
    · have hexact : header.length = headerLength := by omega
      rw [if_neg hless, hwhole]
      by_cases hvalid : ValidHeader header
      · rw [if_pos hvalid]
        have hlimit := hvalid.2.1
        obtain ⟨round, hround, hrounds⟩ :=
          @recvBody_rounds _ σ handlers
            { session with state := { shortState header with length := lengthField header } }
            (rest.drop count) rest.length hexact.ge hvalid rfl rfl (by omega)
            (filled_shortState hexact.le hlimit _) (.inl (by rw [length_drop]; omega))
        exact ⟨round, hround, hrounds.congr rfl rfl⟩
      · rw [if_neg hvalid]
        have hsteps := @steps_invalid σ handlers session.inner (header ++ rest.drop count)
          (by rw [length_append]; omega) (mt (validHeader_append hexact.ge _).mp hvalid)
        exact ⟨_, rfl, .stop hsteps ⟨rfl, fun _ => rfl, nofun⟩ rfl⟩

theorem recvRound_rounds (hholds : Holds session.state content) (hrest : rest ≠ []) :
    ∃ round, session.recvRound handlers rest = some round ∧
      Rounds handlers session (content ++ rest) rest.length round := by
  by_cases hwhole : session.state.bytes = 0 ∧ headerLength ≤ rest.length
  · obtain ⟨hempty, hhdr⟩ := hwhole
    have hnil : content = [] := by
      rw [hholds.bytes_eq] at hempty
      exact length_eq_zero_iff.mp hempty
    subst hnil
    by_cases hvalid : ValidHeader rest
    · by_cases hlen : lengthField rest ≤ rest.length
      · have hsteps : (frameDecoder handlers).Steps ⟨(session.inner, false), rest⟩
            [rest.take (lengthField rest)]
            ⟨processMessage handlers session.inner (rest.take (lengthField rest)),
              rest.drop (lengthField rest)⟩ :=
          Decoder.Steps.single (c := ⟨(session.inner, false), rest⟩)
            (next_eq_of_decides handlers (.frame hhdr hvalid hlen))
        have hstate : session.state = {} := by
          cases hholds with
          | short hstate _ => exact hstate
          | long h _ _ _ _ _ => exact absurd h (by decide)
        have hposi := hvalid.2.1
        refine ⟨_, ?_, .again hsteps (represents_handOn session hstate _) rfl ?_⟩
        · rw [recvRound, if_pos ⟨hempty, hhdr⟩, if_pos hvalid, if_pos hlen]
        · unfold headerLength at hposi
          rw [length_drop]
          omega
      · rw [recvRound, if_pos ⟨hempty, hhdr⟩, if_pos hvalid, if_neg hlen]
        exact recvBuffered_rounds hholds hrest
    · rw [recvRound, if_pos ⟨hempty, hhdr⟩, if_neg hvalid]
      exact ⟨_, rfl, .stop (steps_invalid hhdr hvalid) ⟨rfl, fun _ => rfl, nofun⟩ rfl⟩
  · rw [recvRound, if_neg hwhole]
    exact recvBuffered_rounds hholds hrest

/-- A call of `recvMsg` returns, and the decoder has gone through what has arrived. -/
theorem recvLoop_steps {fuel : ℕ} (hfuel : rest.length < fuel) (h : Represents c session) :
    ∃ after ms c', session.recvLoop handlers fuel rest = some after ∧
      (frameDecoder handlers).Steps (c.append rest) ms c' ∧ Represents c' after ∧
      after.frames = session.frames ++ ms := by
  induction fuel generalizing session c rest with
  | zero => omega
  | succ _ ih =>
    obtain ⟨⟨inner, closed⟩, content⟩ := c
    by_cases hrest : rest = []
    · subst hrest
      refine ⟨session, [], _, ?_, .refl _, ?_, (append_nil _).symm⟩
      · rw [recvLoop, if_pos (.inl rfl)]
      · rwa [Buffered.append_nil]
    · cases closed with
      | true =>
        have hstate := h.closed rfl
        refine ⟨session, [], _, ?_, .refl _, ⟨h.inner, fun _ => hstate, fun hopen => ?_⟩,
          (append_nil _).symm⟩
        · rw [recvLoop, if_pos (.inr (by rw [hstate]))]
        · cases hopen
      | false =>
        have hholds : Holds session.state content := h.holds rfl
        have hinner : session.inner = inner := h.inner
        have hopen : ¬ (rest = [] ∨ session.state.closed = true) := by
          rw [hholds.closed_eq]
          simpa using hrest
        obtain ⟨_, hround, hrounds⟩ := @recvRound_rounds _ σ handlers _ _ hholds hrest
        rw [recvLoop, if_neg hopen, hround]
        cases hrounds with
        | stop steps represents frames =>
          rw [hinner] at steps
          exact ⟨_, [], _, rfl, steps, represents, by rw [List.append_nil, frames]⟩
        | @again ctl after frame later steps represents frames less =>
          rw [hinner] at steps
          obtain ⟨last, ms, c', hlast, hsteps, hrepr, hfrs⟩ :=
            @ih ⟨ctl, []⟩ after later (by omega) represents
          refine ⟨last, [frame] ++ ms, c', hlast, steps.trans hsteps, hrepr, ?_⟩
          rw [hfrs, frames, append_assoc]

/-- The calls with the pieces of a stream return, and the decoder has gone through the stream. -/
theorem recvAll_steps (h : Represents c session) (pieces : List Buffer) :
    ∃ after ms c', session.recvAll handlers pieces = some after ∧
      (frameDecoder handlers).Steps (c.append pieces.flatten) ms c' ∧ Represents c' after ∧
      after.frames = session.frames ++ ms := by
  induction pieces generalizing session c with
  | nil =>
    refine ⟨session, [], c, rfl, ?_, h, (append_nil _).symm⟩
    rw [flatten_nil, Buffered.append_nil]
    exact .refl c
  | cons piece _ ih =>
    obtain ⟨first, ms, _, hfirst, hsteps, hrepr, hfrs⟩ :=
      @recvLoop_steps σ handlers _ _ _ _ (Nat.lt_succ_self piece.length) h
    obtain ⟨last, ns, c₂, hlast, hsteps', hrepr', hfrs'⟩ := ih hrepr
    refine ⟨last, ms ++ ns, c₂, ?_, ?_, hrepr', ?_⟩
    · have hmsg : session.recvMsg handlers piece = some first := hfirst
      show (session.recvMsg handlers piece).bind _ = _
      rw [hmsg]
      exact hlast
    · rw [flatten_cons, Buffered.append_append]
      exact (hsteps.append (stable_frameDecoder handlers) _).trans hsteps'
    · rw [hfrs', hfrs, append_assoc]

/-! ## The frames -/

/-- The state of a session after frames, and whether it is closed by then. -/
def processAll (handlers : Handlers σ) (inner : σ) (frames : List Buffer) : σ × Bool :=
  frames.foldl (fun s frame => if s.2 then s else processMessage handlers s.1 frame) (inner, false)

/-- The frames follow each other from the start of the stream, each has the length that its valid
header declares, and the session is not closed before any of them. -/
structure FramesOf (handlers : Handlers σ) (inner : σ) (stream : Buffer) (frames : List Buffer) :
    Prop where
  consecutive : frames.flatten <+: stream
  sized : ∀ frame ∈ frames, ValidHeader frame ∧ lengthField frame = frame.length
  still_open : ∀ before after, frames = before ++ after → after ≠ [] →
    (processAll handlers inner before).2 = false

theorem processAll_cons (frames : List Buffer)
    (h : (processMessage handlers inner frame).2 = false) :
    processAll handlers inner (frame :: frames) =
      processAll handlers (processMessage handlers inner frame).1 frames :=
        congrArg (foldl _ · frames) (Prod.ext rfl h)

theorem processAll_singleton :
    processAll handlers inner [frame] = processMessage handlers inner frame := by
  rw [processAll, foldl_cons, if_neg Bool.false_ne_true, foldl_nil]

theorem framesOf_nil (inner : σ) (stream : Buffer) : FramesOf handlers inner stream [] := by
  refine ⟨List.nil_prefix, nofun, ?_⟩
  intro before after hsplit hafter
  exact absurd (append_eq_nil_iff.mp hsplit.symm).2 hafter

/-- A first frame in front of those of the rest, which has any only if the session stays open. -/
theorem FramesOf.cons {frames : List Buffer} (hvalid : ValidHeader frame)
    (hlen : lengthField frame = frame.length)
    (h : FramesOf handlers (processMessage handlers inner frame).1 rest frames)
    (hopen : frames ≠ [] → (processMessage handlers inner frame).2 = false) :
    FramesOf handlers inner (frame ++ rest) (frame :: frames) := by
  refine ⟨?_, ?_, ?_⟩
  · exact (prefix_append_right_inj frame).mpr h.consecutive
  · intro other hother
    rcases mem_cons.mp hother with rfl | hother
    · exact ⟨hvalid, hlen⟩
    · exact h.sized other hother
  · intro before after hsplit hafter
    cases before with
    | nil => rfl
    | cons _ before =>
      obtain ⟨rfl, hrest⟩ := List.cons.inj hsplit
      have hfrs : frames = before ++ after := hrest
      rw [processAll_cons before (hopen (by rw [hfrs]; simp [hafter]))]
      exact h.still_open before after hfrs hafter

def leftOf (stream : Buffer) (frames : List Buffer) : Buffer := stream.drop frames.flatten.length

theorem leftOf_cons (frame rest : Buffer) (frames : List Buffer) :
    leftOf (frame ++ rest) (frame :: frames) = leftOf rest frames := by
  rw [leftOf, leftOf]
  simp

/-- The steps of the decoder, in terms of the stream and the frames: where they lead. -/
structure Reached (handlers : Handlers σ) (inner : σ) (stream : Buffer) (frames : List Buffer)
    (c : Buffered UInt8 (σ × Bool)) : Prop where
  framesOf : FramesOf handlers inner stream frames
  left : c.ctl.2 = false → c.buffer = leftOf stream frames
  closed : c.ctl.2 = true → (processAll handlers inner frames).2 = true ∨
    headerLength ≤ (leftOf stream frames).length ∧ ¬ ValidHeader (leftOf stream frames)

theorem Reached.cons {frames : List Buffer} (hvalid : ValidHeader frame)
    (hlen : lengthField frame = frame.length)
    (hopen : (processMessage handlers inner frame).2 = false)
    (h : Reached handlers (processMessage handlers inner frame).1 rest frames c) :
    Reached handlers inner (frame ++ rest) (frame :: frames) c := by
  refine ⟨h.framesOf.cons hvalid hlen fun _ => hopen, ?_, ?_⟩
  · rw [leftOf_cons]
    exact h.left
  · rw [leftOf_cons, processAll_cons frames hopen]
    exact h.closed

theorem reached_of_steps {c' : Buffered UInt8 (σ × Bool)} {ms : List Buffer}
    (h : (frameDecoder handlers).Steps c ms c') (hopen : c.ctl.2 = false) :
    Reached handlers c.ctl.1 c.buffer ms c' := by
  induction h with
  | refl c =>
    refine ⟨framesOf_nil .., fun _ => rfl, fun hcl => ?_⟩
    rw [hopen] at hcl
    cases hcl
  | @head c c' n s out ms hnext hsteps ih =>
    obtain ⟨⟨inner, closed⟩, buffer⟩ := c
    obtain rfl : closed = false := hopen
    have hdeci := next_decides handlers inner buffer
    rw [hnext] at hdeci
    cases hdeci with
    | invalid hhdr hvalid =>
      have hhalted : (frameDecoder handlers).Halted ⟨(inner, true), buffer.drop headerLength⟩ :=
        Decoder.halted_of_wait (next_closed handlers inner _)
      obtain ⟨rfl, rfl⟩ := hsteps.eq_nil_of_halted hhalted
      refine ⟨framesOf_nil .., fun hfalse => ?_, fun _ => Or.inr ⟨hhdr, hvalid⟩⟩
      cases hfalse
    | frame _ hvalid hlen =>
      obtain ⟨frame, rest, hbuf, hframe⟩ : ∃ frame rest, buffer = frame ++ rest ∧
          frame.length = lengthField buffer :=
        ⟨_, _, (take_append_drop _ buffer).symm, length_take_of_le hlen⟩
      have hlong : headerLength ≤ frame.length := by
        rw [hframe]
        exact hvalid.2.1
      have htake : buffer.take (lengthField buffer) = frame := by
        rw [← hframe, hbuf, take_left' rfl]
      have hdrop : buffer.drop (lengthField buffer) = rest := by
        rw [← hframe, hbuf, drop_left' rfl]
      rw [htake, hdrop] at hsteps ih
      rw [hbuf, validHeader_append hlong] at hvalid
      rw [hbuf, lengthField_append hlong] at hframe
      show Reached handlers inner buffer ([buffer.take _] ++ ms) c'
      rw [htake, hbuf]
      rcases hproc : processMessage handlers inner frame with ⟨next, closed⟩
      cases closed with
      | false =>
        have hopen : (processMessage handlers inner frame).2 = false := by rw [hproc]
        exact (ih hopen).cons hvalid hframe.symm hopen
      | true =>
        rw [hproc] at hsteps
        have hhalted : (frameDecoder handlers).Halted ⟨(next, true), rest⟩ :=
          Decoder.halted_of_wait (next_closed handlers next rest)
        obtain ⟨rfl, rfl⟩ := hsteps.eq_nil_of_halted hhalted
        refine ⟨(framesOf_nil _ rest).cons hvalid hframe.symm fun h => absurd rfl h, fun h => ?_,
          fun _ => Or.inl ?_⟩
        · cases h
        · rw [List.append_nil, processAll_singleton, hproc]

/-! ## The stream -/

/-- What a session keeps of a stream between calls: nothing if it is closed, and otherwise a part
of the one frame that is not complete. -/
structure Kept (session : Session σ) (left : Buffer) : Prop where
  closed : session.state.closed = true → session.state.bytes = 0 ∧ session.state.capacity = 0
  buffered : session.state.closed = false → bufferedFrame session.state = left
  bytes : session.state.closed = false → session.state.bytes = left.length
  incomplete : session.state.closed = false →
    left.length < headerLength ∧ session.state.capacity ≤ headerLength ∨
      ValidHeader left ∧ left.length < lengthField left ∧ session.state.capacity ≤ lengthField left

theorem Holds.incomplete (h : Holds state content) :
    content.length < headerLength ∧ state.capacity ≤ headerLength ∨
      ValidHeader content ∧ content.length < lengthField content ∧
        state.capacity ≤ lengthField content := by
  cases h with
  | short hstate hlen =>
    rw [hstate]
    exact .inl ⟨hlen, (filled_shortState hlen.le (le_rfl) 0).limit⟩
  | long _ hvalid _ _ hless hfill => exact .inr ⟨hvalid, hless, hfill.limit⟩

theorem Represents.kept (h : Represents c session) (hleft : c.ctl.2 = false → c.buffer = content) :
    Kept session content := by
  obtain ⟨⟨_, closed⟩, buffer⟩ := c
  cases closed with
  | true =>
    have hstate := h.closed rfl
    have hnever : session.state.closed ≠ false := by
      rw [hstate]
      decide
    refine ⟨fun _ => ?_, fun hopen => absurd hopen hnever, fun hopen => absurd hopen hnever,
      fun hopen => absurd hopen hnever⟩
    rw [hstate]
    exact ⟨rfl, rfl⟩
  | false =>
    have hholds := h.holds rfl
    obtain rfl : buffer = content := hleft rfl
    refine ⟨fun hcl => ?_, fun _ => bufferedFrame_eq hholds.filled.choose_spec,
      fun _ => hholds.bytes_eq, fun _ => hholds.incomplete⟩
    rw [hholds.closed_eq] at hcl
    cases hcl

/-- However a stream is cut, all calls return, the frames are the same, and no more is kept than a
part of one frame. A session that is closed takes nothing in any more. -/
theorem recvAll_frames (handlers : Handlers σ) (inner : σ) (stream : Buffer) :
    ∃ frames, FramesOf handlers inner stream frames ∧
      ∀ pieces : List Buffer, pieces.flatten = stream → ∃ session,
        Session.recvAll handlers { inner } pieces = some session ∧ session.frames = frames ∧
        Kept session (leftOf stream frames) ∧
        (session.state.closed = true →
          ((processAll handlers inner frames).2 = true ∨
            headerLength ≤ (leftOf stream frames).length ∧ ¬ ValidHeader (leftOf stream frames)) ∧
          ∀ more, session.recvMsg handlers more = some session) := by
  have hinit : Represents ⟨(inner, false), []⟩ { inner } :=
    @represents_holds [] σ { inner } (.short rfl (by decide))
  have hrun := fun pieces => @recvAll_steps σ handlers _ _ hinit pieces
  obtain ⟨_, frames, c, -, hsteps, hrepr, -⟩ := hrun [stream]
  rw [flatten_singleton] at hsteps
  have hhalted := Decoder.halted_of_wait (@Represents.next_eq σ handlers _ _ hrepr)
  have hreac : Reached handlers inner stream frames c := reached_of_steps hsteps rfl
  refine ⟨frames, hreac.framesOf, ?_⟩
  rintro pieces hpieces
  obtain ⟨session, _, c', hall, hsteps', hrepr', hfrs⟩ := hrun pieces
  rw [hpieces] at hsteps'
  have hhalted' := Decoder.halted_of_wait (@Represents.next_eq σ handlers _ _ hrepr')
  obtain ⟨rfl, rfl⟩ := hsteps'.halt_unique hhalted' hsteps hhalted
  refine ⟨session, hall, hfrs, hrepr'.kept hreac.left, ?_⟩
  intro hcl
  have hctl : c'.ctl.2 = true := by
    by_contra hopen
    have hholds := hrepr'.holds (by simpa using hopen)
    rw [hholds.closed_eq] at hcl
    cases hcl
  refine ⟨hreac.closed hctl, fun more => ?_⟩
  rw [recvMsg, recvLoop, if_pos (.inr hcl)]

end Bmp
