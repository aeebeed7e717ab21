import NetNexus.Stream.Decoder

/-!
# Incremental decoders: the loop and the cutting of the stream

The loop over one delivery is related to `Steps`, the closure of the rounds that take something
off the buffer. For a stable decoder `Steps` does not notice input that arrives later, and since
the decoder is deterministic, where a stream leads does not depend on how it was cut.
-/

namespace Stream

open List

namespace Limit

@[simp] theorem allows_none (k : ℕ) : Limit.allows none k = true := rfl

theorem allows_zero (limit : Limit) : limit.allows 0 := by
  cases limit with
  | none => rfl
  | some n => exact decide_eq_true n.pos

end Limit

variable {β σ μ ε κ : Type*} (c : Buffered β σ)

@[simp] theorem Buffered.append_ctl (more : List β) : (c.append more).ctl = c.ctl := rfl

@[simp] theorem Buffered.append_buffer (more : List β) :
    (c.append more).buffer = c.buffer ++ more := rfl

@[simp] theorem Buffered.append_nil : c.append [] = c := by
  simp [Buffered.append]

theorem Buffered.append_append (a b : List β) : c.append (a ++ b) = (c.append a).append b := by
  simp [Buffered.append]

namespace Decoder

variable {d : Decoder β σ μ ε} {code : ε → κ} {c c₁ c₂ : Buffered β σ} {ms ns : List μ}

/-! ## Rounds -/

theorem Steps.trans {a b : Buffered β σ} (h₁ : d.Steps a ms b) (h₂ : d.Steps b ns c) :
    d.Steps a (ms ++ ns) c := by
  induction h₁ with
  | refl _ => exact h₂
  | head h _ ih =>
    rw [append_assoc]
    exact .head h (ih h₂)

variable {s : σ}

theorem Steps.single {n : ℕ} {out : Option μ} (h : d.next c.ctl c.buffer = .take n s out) :
    d.Steps c out.toList ⟨s, c.buffer.drop n⟩ := by
  simpa using Steps.head h (.refl _)

/-- Input that arrives later does not change the rounds that were possible without it. -/
theorem Steps.append (hd : d.Stable code) (h : d.Steps c ms c₁) (more : List β) :
    d.Steps (c.append more) ms (c₁.append more) := by
  induction h with
  | refl c => exact .refl _
  | @head c c' n s out ms h _ ih =>
    refine .head (hd.take_append h more) ?_
    have hle := hd.take_le h
    rw [Buffered.append_buffer, drop_append_of_le_length hle]
    exact ih

/-- The rounds are deterministic: a run to a halt continues every shorter run. -/
theorem Steps.residual (h₁ : d.Steps c ms c₁) (h₂ : d.Steps c ns c₂) (hh : d.Halted c₂) :
    ∃ rest, ns = ms ++ rest ∧ d.Steps c₁ rest c₂ := by
  induction h₁ generalizing ns with
  | refl c => exact ⟨ns, rfl, h₂⟩
  | head h _ ih =>
    cases h₂ with
    | refl _ => exact absurd h (hh _ _ _)
    | head h' hs' =>
      rw [h] at h'
      cases h'
      obtain ⟨rest, hns, hrest⟩ := ih hs'
      exact ⟨rest, by rw [hns, append_assoc], hrest⟩

theorem Steps.eq_nil_of_halted (h : d.Steps c ms c₁) (hh : d.Halted c) : ms = [] ∧ c₁ = c := by
  cases h with
  | refl _ => exact ⟨rfl, rfl⟩
  | head h _ => exact absurd h (hh _ _ _)

theorem Steps.halt_unique (h₁ : d.Steps c ms c₁) (hh₁ : d.Halted c₁) (h₂ : d.Steps c ns c₂)
    (hh₂ : d.Halted c₂) : ms = ns ∧ c₁ = c₂ := by
  obtain ⟨_, hns, hrest⟩ := h₁.residual h₂ hh₂
  obtain ⟨hnil, hc⟩ := hrest.eq_nil_of_halted hh₁
  rw [hns, hnil, List.append_nil]
  exact ⟨rfl, hc.symm⟩

/-- Pieces that each bring the decoder back to `s` with one message can stand in a row. -/
theorem Steps.flatMap {ι : Type*} (xs : List ι) (bytes : ι → List β) (out : ι → μ)
    (h : ∀ x ∈ xs, ∀ rest, d.Steps ⟨s, bytes x ++ rest⟩ [out x] ⟨s, rest⟩) (rest : List β) :
    d.Steps ⟨s, xs.flatMap bytes ++ rest⟩ (xs.map out) ⟨s, rest⟩ := by
  induction xs with
  | nil => exact .refl _
  | cons x xs ih =>
    have hhead := h x (mem_cons_self ..) (xs.flatMap bytes ++ rest)
    have htail := ih fun x' hx => h x' (mem_cons_of_mem _ hx)
    rw [flatMap_cons, append_assoc]
    exact hhead.trans htail

theorem halted_of_wait (h : d.next c.ctl c.buffer = .wait) : d.Halted c := by
  intro n s out h'
  rw [h] at h'
  cases h'

variable {e : ε}

theorem halted_of_fail (h : d.next c.ctl c.buffer = .fail s e) : d.Halted c := by
  intro n s out h'
  rw [h] at h'
  cases h'

/-! ## The loop -/

variable {limit : Limit} {fuel : ℕ}

theorem drain_returned {acc : List μ} (h : d.drain limit fuel c acc = some (.returned ms c₁)) :
    ∃ out, ms = acc ++ out ∧ d.Steps c out c₁ ∧
      (limit.allows ms.length → d.next c₁.ctl c₁.buffer = .wait) := by
  induction fuel generalizing c acc with
  | zero => cases h
  | succ _ ih =>
    rw [drain] at h
    split at h
    · split at h
      case h_1 hnext =>
        cases h
        exact ⟨[], (append_nil _).symm, .refl _, fun _ => hnext⟩
      case h_2 n s out hnext =>
        obtain ⟨rest, hms, hsteps, hwait⟩ := ih h
        exact ⟨out.toList ++ rest, by rw [hms, append_assoc], .head hnext hsteps, hwait⟩
      case h_3 => cases h
    case isFalse hlim =>
      cases h
      exact ⟨[], (append_nil _).symm, .refl _, fun hopen => absurd hopen hlim⟩

theorem drain_thrown {acc : List μ} (h : d.drain limit fuel c acc = some (.thrown e ms c₁)) :
    ∃ out s, ms = acc ++ out ∧ d.Steps c out ⟨s, c₁.buffer⟩ ∧
      d.next s c₁.buffer = .fail c₁.ctl e := by
  induction fuel generalizing c acc with
  | zero => cases h
  | succ _ ih =>
    rw [drain] at h
    split at h
    · split at h
      case h_1 => cases h
      case h_2 n s out hnext =>
        obtain ⟨rest, s', hms, hsteps, hfail⟩ := ih h
        exact ⟨out.toList ++ rest, s', by rw [hms, append_assoc], .head hnext hsteps, hfail⟩
      case h_3 s e' hnext =>
        cases h
        exact ⟨[], c.ctl, (append_nil _).symm, .refl _, hnext⟩
    · cases h

/-- The loop of a decoder that makes progress ends within one round more than it has units. -/
theorem drain_isSome (hd : d.Stable code) (hp : d.Progress) (limit : Limit)
    (hf : c.buffer.length < fuel) (acc : List μ) : (d.drain limit fuel c acc).isSome := by
  induction fuel generalizing c acc with
  | zero => omega
  | succ _ ih =>
    rw [drain]
    split
    · split
      case h_1 => rfl
      case h_2 n s out hnext =>
        have hpos := hp hnext
        have hle := hd.take_le hnext
        refine ih ?_ _
        simp only [length_drop]
        omega
      case h_3 => rfl
    · rfl

/-! ## One delivery -/

variable {piece : List β}

theorem push_returned (h : d.push c piece limit = some (.returned ms c₁)) :
    d.Steps (c.append piece) ms c₁ ∧
      (limit.allows ms.length → d.next c₁.ctl c₁.buffer = .wait) := by
  obtain ⟨_, hms, hsteps, hwait⟩ := drain_returned h
  exact ⟨hms ▸ hsteps, hwait⟩

theorem push_thrown (h : d.push c piece limit = some (.thrown e ms c₁)) :
    ∃ s, d.Steps (c.append piece) ms ⟨s, c₁.buffer⟩ ∧ d.next s c₁.buffer = .fail c₁.ctl e := by
  obtain ⟨_, s, hms, hsteps, hfail⟩ := drain_thrown h
  exact ⟨s, hms ▸ hsteps, hfail⟩

theorem push_cases (hd : d.Stable code) (hp : d.Progress) (c : Buffered β σ) (piece : List β)
    (limit : Limit) : (∃ ms c', d.push c piece limit = some (.returned ms c')) ∨
      ∃ e ms c', d.push c piece limit = some (.thrown e ms c') := by
  have hsome : (d.push c piece limit).isSome := drain_isSome hd hp limit (Nat.lt_succ_self _) []
  obtain ⟨o, ho⟩ := Option.isSome_iff_exists.mp hsome
  cases o with
  | returned ms c' => exact .inl ⟨ms, c', ho⟩
  | thrown e ms c' => exact .inr ⟨e, ms, c', ho⟩

/-- A delivery after which the decoder comes to wait returns, with everything it can produce. -/
theorem push_of_steps_wait (hd : d.Stable code) (hp : d.Progress)
    (h : d.Steps (c.append piece) ms c₁) (hw : d.next c₁.ctl c₁.buffer = .wait) :
    d.push c piece none = some (.returned ms c₁) := by
  rcases push_cases hd hp c piece none with ⟨_, _, hpush⟩ | ⟨e, _, _, hpush⟩
  · obtain ⟨hs, hw'⟩ := push_returned hpush
    obtain ⟨rfl, rfl⟩ := hs.halt_unique (halted_of_wait (hw' rfl)) h (halted_of_wait hw)
    exact hpush
  · obtain ⟨s, hs, hfail⟩ := push_thrown hpush
    obtain ⟨-, rfl⟩ := hs.halt_unique (halted_of_fail hfail) h (halted_of_wait hw)
    rw [hfail] at hw
    cases hw

theorem push_of_steps_fail (hd : d.Stable code) (hp : d.Progress)
    (h : d.Steps (c.append piece) ms c₁) (hf : d.next c₁.ctl c₁.buffer = .fail s e) :
    d.push c piece none = some (.thrown e ms { c₁ with ctl := s }) := by
  rcases push_cases hd hp c piece none with ⟨_, _, hpush⟩ | ⟨_, _, _, hpush⟩
  · obtain ⟨hs, hw'⟩ := push_returned hpush
    obtain ⟨-, rfl⟩ := hs.halt_unique (halted_of_wait (hw' rfl)) h (halted_of_fail hf)
    rw [hw' rfl] at hf
    cases hf
  · obtain ⟨_, hs, hfail⟩ := push_thrown hpush
    obtain ⟨rfl, rfl⟩ := hs.halt_unique (halted_of_fail hfail) h (halted_of_fail hf)
    rw [hfail] at hf
    cases hf
    exact hpush

/-! ## Sequences of deliveries -/

variable {calls : List (List β × Limit)} {msgs : List (List μ)}

@[simp] theorem input_nil : input ([] : List (List β × Limit)) = [] := rfl

@[simp] theorem input_cons (piece : List β) (limit : Limit) :
    input ((piece, limit) :: calls) = piece ++ input calls := rfl

@[simp] theorem input_unbounded (cut : List (List β)) : input (unbounded cut) = cut.flatten := by
  simp [input, unbounded, Function.comp_def]

theorem feed_cons_ok {call : List β × Limit} (h : d.feed c (call :: calls) = some ⟨msgs, .ok c₁⟩) :
    ∃ ms c' msgs', d.push c call.1 call.2 = some (.returned ms c') ∧
      d.feed c' calls = some ⟨msgs', .ok c₁⟩ ∧ msgs = ms :: msgs' := by
  rw [feed] at h
  split at h
  · cases h
  · cases h
  · rename_i ms c' hpush
    rw [Option.map_eq_some_iff] at h
    obtain ⟨⟨msgs', _⟩, hr, heq⟩ := h
    cases heq
    exact ⟨ms, c', msgs', hpush, hr, rfl⟩

section

variable (hd : d.Stable code)
include hd

section

variable (hp : d.Progress)
include hp

theorem feed_cons_cases (c : Buffered β σ) (piece : List β)
    (limit : Limit) (calls : List (List β × Limit)) :
    (∃ ms c', d.push c piece limit = some (.returned ms c') ∧
      d.feed c ((piece, limit) :: calls) =
        (d.feed c' calls).map fun r => { r with msgs := ms :: r.msgs }) ∨
    ∃ e ms c', d.push c piece limit = some (.thrown e ms c') ∧
      d.feed c ((piece, limit) :: calls) = some ⟨[], .error e⟩ := by
  rcases push_cases hd hp c piece limit with ⟨ms, c', h⟩ | ⟨e, ms, c', h⟩
  · exact .inl ⟨ms, c', h, by rw [feed, h]⟩
  · exact .inr ⟨e, ms, c', h, by rw [feed, h]⟩

/-- Every sequence of deliveries comes to an end. -/
theorem feed_total (c : Buffered β σ)
    (calls : List (List β × Limit)) : ∃ r, d.feed c calls = some r := by
  induction calls generalizing c with
  | nil => exact ⟨_, rfl⟩
  | cons call calls ih =>
    obtain ⟨piece, limit⟩ := call
    rcases feed_cons_cases hd hp c piece limit calls with ⟨_, c', -, h⟩ | ⟨e, -, -, -, h⟩
    · obtain ⟨r, hr⟩ := ih c'
      exact ⟨_, by rw [h, hr]; rfl⟩
    · exact ⟨_, h⟩

section

variable (h : d.feed c calls = some ⟨msgs, .ok c₁⟩)
include h

omit hp in
/-- Deliveries that all return amount to rounds on the whole input at once. -/
theorem feed_ok : d.Steps (c.append (input calls)) msgs.flatten c₁ := by
  induction calls generalizing c msgs with
  | nil =>
    cases h
    simpa using Steps.refl c₁
  | cons _ calls ih =>
    obtain ⟨_, _, _, hpush, hr, rfl⟩ := feed_cons_ok h
    have hhead := (push_returned hpush).1.append hd (input calls)
    rw [← Buffered.append_append] at hhead
    exact hhead.trans (ih hr)

omit h in
/-- A failing delivery fails on the whole input too, after the messages that were returned and
those that were lost with the failure. -/
theorem feed_error (h : d.feed c calls = some ⟨msgs, .error e⟩) :
    ∃ lost c₁ s e', d.Steps (c.append (input calls)) (msgs.flatten ++ lost) c₁ ∧
      d.next c₁.ctl c₁.buffer = .fail s e' ∧ code e' = code e := by
  induction calls generalizing c msgs with
  | nil => cases h
  | cons call calls ih =>
    obtain ⟨piece, limit⟩ := call
    rw [input_cons, Buffered.append_append]
    rcases feed_cons_cases hd hp c piece limit calls with ⟨_, _, hpush, h'⟩ | ⟨_, ms, _, hpush, h'⟩
    · rw [h', Option.map_eq_some_iff] at h
      obtain ⟨⟨_, _⟩, hr, heq⟩ := h
      cases heq
      obtain ⟨lost, c₁, s, e', hsteps, hfail, hcode⟩ := ih hr
      refine ⟨lost, c₁, s, e', ?_, hfail, hcode⟩
      rw [flatten_cons, append_assoc]
      exact ((push_returned hpush).1.append hd _).trans hsteps
    · rw [h'] at h
      cases h
      obtain ⟨s, hsteps, hfail⟩ := push_thrown hpush
      obtain ⟨e', hfail', hcode⟩ := hd.fail_append hfail _
      exact ⟨ms, _, _, e', hsteps.append hd _, hfail', hcode⟩

omit hd hp in
/-- Once the deliveries are drained the decoder waits for input. -/
theorem feed_wait (hdr : Drained calls msgs)
    (hc : calls = [] → d.next c.ctl c.buffer = .wait) : d.next c₁.ctl c₁.buffer = .wait := by
  induction calls generalizing c msgs with
  | nil =>
    cases h
    exact hc rfl
  | cons _ _ ih =>
    obtain ⟨_, _, _, hpush, hr, rfl⟩ := feed_cons_ok h
    refine ih hr ?_ ?_
    · intro call' hcall ms' hms
      refine hdr call' ?_ ms' ?_
      · simp [getLast?_cons, Option.mem_def.mp hcall]
      · simp [getLast?_cons, Option.mem_def.mp hms]
    · rintro rfl
      cases hr
      exact (push_returned hpush).2 (hdr _ rfl _ rfl)

/-! ## Streams that decode without a failure -/

omit h in
/-- If the whole input leads to a waiting decoder, then no cutting of it fails: the deliveries
return a first part of the messages and the decoder can still produce the others. -/
theorem feed_of_steps_wait
    (h : d.Steps (c.append (input calls)) ms c₁) (hw : d.next c₁.ctl c₁.buffer = .wait) :
    ∃ msgs c' rest, d.feed c calls = some ⟨msgs, .ok c'⟩ ∧ ms = msgs.flatten ++ rest ∧
      d.Steps c' rest c₁ := by
  obtain ⟨⟨msgs, last⟩, hr⟩ := feed_total hd hp c calls
  cases last with
  | ok c' =>
    obtain ⟨rest, hms, hrest⟩ := (feed_ok hd hr).residual h (halted_of_wait hw)
    exact ⟨msgs, c', rest, hr, hms, hrest⟩
  | error e =>
    obtain ⟨_, _, s, _, hsteps, hfail, -⟩ := feed_error hd hp hr
    obtain ⟨-, rfl⟩ := hsteps.halt_unique (halted_of_fail hfail) h (halted_of_wait hw)
    rw [hw] at hfail
    cases hfail

omit h in
/-- Drained deliveries have returned everything. -/
theorem feed_of_drained
    (h : d.Steps (c.append (input calls)) ms c₁) (hw : d.next c₁.ctl c₁.buffer = .wait)
    (hc : d.next c.ctl c.buffer = .wait) : ∃ msgs c', d.feed c calls = some ⟨msgs, .ok c'⟩ ∧
      (Drained calls msgs → msgs.flatten = ms ∧ c' = c₁) := by
  obtain ⟨msgs, c', _, hr, hms, hrest⟩ := feed_of_steps_wait hd hp h hw
  refine ⟨msgs, c', hr, fun hdr => ?_⟩
  have hw' := feed_wait hr hdr fun _ => hc
  obtain ⟨hnil, hc'⟩ := hrest.eq_nil_of_halted (halted_of_wait hw')
  rw [hms, hnil, List.append_nil]
  exact ⟨rfl, hc'.symm⟩

omit hp hd in
theorem feed_append {calls' : List (List β × Limit)} : d.feed c (calls ++ calls') =
    (d.feed c₁ calls').map fun r => { r with msgs := msgs ++ r.msgs } := by
  induction calls generalizing c msgs with
  | nil =>
    cases h
    simp
  | cons _ _ ih =>
    obtain ⟨_, _, _, hpush, hr, rfl⟩ := feed_cons_ok h
    rw [cons_append, feed, hpush]
    dsimp only
    rw [ih hr, Option.map_map]
    rfl

omit hp hd in
theorem feed_length : msgs.length = calls.length := by
  induction calls generalizing c msgs with
  | nil =>
    cases h
    rfl
  | cons _ _ ih =>
    obtain ⟨-, _, _, -, hr, rfl⟩ := feed_cons_ok h
    rw [length_cons, length_cons, ih hr]

end

omit hp hd in
theorem Drained.cons (hdr : Drained calls msgs) (hlen : msgs.length = calls.length)
    (hne : calls ≠ []) (call : List β × Limit) (ms : List μ) :
    Drained (call :: calls) (ms :: msgs) := by
  have hne' : msgs ≠ [] := by
    intro hnil
    rw [hnil] at hlen
    exact hne (eq_nil_of_length_eq_zero hlen.symm)
  intro call' hcall ms' hms
  rw [getLast?_cons_of_ne_nil hne] at hcall
  rw [getLast?_cons_of_ne_nil hne'] at hms
  exact hdr call' hcall ms' hms

/-- Empty deliveries drain a decoder: each of them that leaves something returns a message. -/
theorem drained_of_empty_deliveries {limits : List Limit}
    (h : d.Steps c ms c₁) (hw : d.next c₁.ctl c₁.buffer = .wait)
    (hlen : ms.length < limits.length) :
    ∃ msgs c', d.feed c (limits.map ([], ·)) = some ⟨msgs, .ok c'⟩ ∧
      Drained (limits.map (([] : List β), ·)) msgs := by
  induction limits generalizing c ms with
  | nil => simp at hlen
  | cons limit limits ih =>
    have h₁ : d.Steps (c.append (input [(([]), limit)])) ms c₁ := by simpa using h
    obtain ⟨msgs₁, c', rest, hr, hms, hrest⟩ := feed_of_steps_wait hd hp h₁ hw
    obtain ⟨out, rfl⟩ : ∃ out, msgs₁ = [out] := length_eq_one_iff.mp (feed_length hr)
    rw [flatten_singleton] at hms
    -- a delivery that returns nothing has come to wait
    have hstuck : out = [] → rest = [] := by
      intro hout
      have hdr : Drained [(([] : List β), limit)] [out] := by
        intro call hcall ms' hms'
        cases hcall
        cases hms'
        rw [hout]
        exact limit.allows_zero
      have hwait := feed_wait hr hdr (by simp)
      exact (hrest.eq_nil_of_halted (halted_of_wait hwait)).1
    by_cases hnil : limits = []
    · subst hnil
      refine ⟨[out], c', hr, ?_⟩
      have hout : out = [] := by
        have hlen' : ms.length = 0 := by simpa using hlen
        rw [length_eq_zero_iff.mp hlen'] at hms
        exact (append_eq_nil_iff.mp hms.symm).1
      intro call hcall ms' hms'
      cases hcall
      cases hms'
      rw [hout]
      exact limit.allows_zero
    · have hlt : rest.length < limits.length := by
        have hpos := length_pos_iff.mpr hnil
        have hsum := congrArg List.length hms
        rw [length_append] at hsum
        rw [length_cons] at hlen
        by_cases hout : out = []
        · rw [hstuck hout]
          exact hpos
        · have := length_pos_iff.mpr hout
          omega
      obtain ⟨msgs, c'', hfeed, hdr⟩ := ih hrest hlt
      refine ⟨out :: msgs, c'', ?_, ?_⟩
      · rw [map_cons, ← singleton_append, feed_append hr, hfeed]
        rfl
      · exact hdr.cons (feed_length hfeed) (by simpa using hnil) _ _

/-! ## Cutting the stream -/

/-- A stream that fails, if at all, before its first message gives the same however it is cut. -/
theorem segmentationIndependent_of {stream : List β} (hc : d.next c.ctl c.buffer = .wait)
    (h : ∀ ms c₁ s e, d.Steps (c.append stream) ms c₁ → d.next c₁.ctl c₁.buffer = .fail s e →
      ms = []) : d.SegmentationIndependent code c stream := by
  -- what the deliveries return is what the stream gives as a whole
  have key : ∀ cut : List (List β), cut.flatten = stream → ∀ r,
      d.feed c (unbounded cut) = some r → ∃ c₁, d.Halted c₁ ∧
        d.Steps (c.append stream) r.msgs.flatten c₁ ∧
        ∀ e, r.last = .error e → ∃ s e', d.next c₁.ctl c₁.buffer = .fail s e' ∧
          code e' = code e := by
    rintro cut rfl ⟨msgs, last⟩ hr
    cases last with
    | ok c₁ =>
      have hsteps := feed_ok hd hr
      rw [input_unbounded] at hsteps
      have hdr : Drained (unbounded cut) msgs := by
        intro call hcall ms _
        have hmem := mem_of_getLast? hcall
        obtain ⟨piece, -, rfl⟩ := mem_map.mp hmem
        rfl
      have hw := feed_wait hr hdr fun _ => hc
      exact ⟨c₁, halted_of_wait hw, hsteps, nofun⟩
    | error e =>
      obtain ⟨lost, c₁, s, e', hsteps, hfail, hcode⟩ := feed_error hd hp hr
      rw [input_unbounded] at hsteps
      have hnil := h _ _ _ _ hsteps hfail
      obtain ⟨hmsgs, rfl⟩ := append_eq_nil_iff.mp hnil
      rw [List.append_nil] at hsteps
      refine ⟨c₁, halted_of_fail hfail, hsteps, fun e₁ he => ?_⟩
      cases he
      exact ⟨s, e', hfail, hcode⟩
  intro cut₁ cut₂ h₁ h₂
  obtain ⟨r₁, hr₁⟩ := feed_total hd hp c _
  obtain ⟨r₂, hr₂⟩ := feed_total hd hp c _
  obtain ⟨_, hh₁, hs₁, he₁⟩ := key cut₁ h₁ r₁ hr₁
  obtain ⟨_, hh₂, hs₂, he₂⟩ := key cut₂ h₂ r₂ hr₂
  obtain ⟨hmsgs, rfl⟩ := hs₁.halt_unique hh₁ hs₂ hh₂
  refine ⟨r₁, r₂, hr₁, hr₂, hmsgs, fun e₁ e₂ hl₁ hl₂ => ?_⟩
  obtain ⟨_, _, hf₁, hcode₁⟩ := he₁ e₁ hl₁
  obtain ⟨_, _, hf₂, hcode₂⟩ := he₂ e₂ hl₂
  rw [hf₁] at hf₂
  cases hf₂
  rw [← hcode₁, ← hcode₂]

/-- A message that is complete before the failure is returned when the stream is cut after it and
lost when the stream comes in one piece. -/
theorem not_segmentationIndependent {a b : List β}
    (ha : d.Steps (c.append a) ms c₁) (hne : ms ≠ []) (hw : d.next c₁.ctl c₁.buffer = .wait)
    (hb : d.Steps (c₁.append b) ns c₂) (hf : d.next c₂.ctl c₂.buffer = .fail s e) :
    ¬ d.SegmentationIndependent code c (a ++ b) := by
  intro hind
  obtain ⟨_, _, hr₁, hr₂, hmsgs, -⟩ := hind [a ++ b] [a, b] (by simp) (by simp)
  have hwhole : d.Steps (c.append (a ++ b)) (ms ++ ns) c₂ := by
    rw [Buffered.append_append]
    exact (ha.append hd b).trans hb
  have hone := push_of_steps_fail hd hp hwhole hf
  have hfst := push_of_steps_wait hd hp ha hw
  have hsnd := push_of_steps_fail hd hp hb hf
  simp only [unbounded, map_cons, feed, hone, Option.some.injEq] at hr₁
  simp only [unbounded, map_cons, feed, hfst, hsnd, Option.map_some,
    Option.some.injEq] at hr₂
  subst hr₁ hr₂
  simp only [flatten_nil, flatten_cons, List.append_nil] at hmsgs
  exact hne hmsgs.symm

/-- Where a run into a failure has read frames and then rejected input, a stream gives the same
however it is cut exactly if no frame comes before the rejected input. -/
theorem segmentationIndependent_iff_of_frames {ι : Type*} [Nonempty ι] {IsFrame : List β → ι → Prop}
    {Rejected : List β → Prop} {out : ι → μ} {stream : List β} (hnil : d.next s [] = .wait)
    (hframe : ∀ bytes x, IsFrame bytes x → ∀ rest, d.Steps ⟨s, bytes ++ rest⟩ [out x] ⟨s, rest⟩)
    (hreje : ∀ bad, Rejected bad → ∃ c₁ s₁ e, d.Steps ⟨s, bad⟩ [] c₁ ∧
      d.next c₁.ctl c₁.buffer = .fail s₁ e)
    (hread : ∀ ms c₁ s₁ e, d.Steps ⟨s, stream⟩ ms c₁ → d.next c₁.ctl c₁.buffer = .fail s₁ e →
      ∃ (frames : List (List β)) (bad : List β), stream = frames.flatten ++ bad ∧
        frames.length = ms.length ∧ (∀ bytes ∈ frames, ∃ x, IsFrame bytes x) ∧ Rejected bad) :
    d.SegmentationIndependent code ⟨s, []⟩ stream ↔
      ¬ ∃ (frames : List (List β)) (bad : List β), stream = frames.flatten ++ bad ∧ frames ≠ [] ∧
        (∀ bytes ∈ frames, ∃ x, IsFrame bytes x) ∧ Rejected bad := by
  constructor
  · rintro hind ⟨frames, bad, rfl, hne, hall, hbad⟩
    choose! x hx using hall
    have hsteps := Steps.flatMap frames id (fun bytes => out (x bytes))
      (fun bytes hb rest => hframe bytes (x bytes) (hx bytes hb) rest) []
    rw [List.append_nil, flatMap_id] at hsteps
    obtain ⟨c₁, s₁, e, hbad, hfail⟩ := hreje bad hbad
    exact not_segmentationIndependent hd hp (c := ⟨s, []⟩) hsteps (by simpa using hne) hnil hbad
      hfail hind
  · intro hno
    refine segmentationIndependent_of hd hp hnil ?_
    intro ms c₁ s₁ e hsteps hfail
    by_contra hms
    obtain ⟨frames, bad, heq, hlen, hall, hbad⟩ := hread ms c₁ s₁ e hsteps hfail
    refine hno ⟨frames, bad, heq, ?_, hall, hbad⟩
    rintro rfl
    exact hms (length_eq_zero_iff.mp hlen.symm)

end

end

end Decoder

end Stream
