import NetNexus.Stream.Loop
import NetNexus.Stream.Proofs.DecoderProofs

/-!
# Progress of receive loops

A decoder whose decisions do not depend on later input progresses on a stream, however it is cut,
exactly if all verdicts on the whole stream are sound.
-/

namespace Stream

open Buffered

namespace Decoder

variable {β σ μ ε κ : Type*} {d : Decoder β σ μ ε} {code : ε → κ} {c c' v : Buffered β σ}
  {least : ℕ} {ms : List μ} {msgs : List (List μ)} {cut : List (List β)}

/-! ## Sound states -/

theorem Sound.step (h : d.Sound least c) {n : ℕ} {s : σ} {out : Option μ}
    (hnext : d.next c.ctl c.buffer = .take n s out) : d.Sound least ⟨s, c.buffer.drop n⟩ := by
  intro ms v hsteps
  exact h _ v (.head hnext hsteps)

theorem Sound.steps (h : d.Sound least c) (hsteps : d.Steps c ms v) : d.Sound least v := by
  intro ns v' hsteps'
  exact h _ v' (hsteps.trans hsteps')

theorem Sound.of_append (hd : d.Stable code) {more : List β} (h : d.Sound least (c.append more)) :
    d.Sound least c := by
  intro ms v hsteps
  have hlater := h ms _ (hsteps.append hd more)
  cases hnext : d.next v.ctl v.buffer with
  | wait => trivial
  | take n s _ =>
    have hsame := hd.take_append hnext more
    rw [append_ctl, append_buffer, hsame] at hlater
    exact hlater
  | fail s e =>
    obtain ⟨_, hsame, -⟩ := hd.fail_append hnext more
    rw [append_ctl, append_buffer, hsame] at hlater
    exact hlater

/-- From a sound state the loop ends, and it ends by waiting. -/
theorem Sound.drain (hd : d.Stable code) (hleast : 0 < least) {fuel : ℕ}
    (hfuel : c.buffer.length < fuel) (h : d.Sound least c) (acc : List μ) :
    ∃ ms c', d.drain none fuel c acc = some (.returned ms c') := by
  induction fuel generalizing c acc with
  | zero => omega
  | succ _ ih =>
    rw [Decoder.drain]
    have hverd := h [] c (.refl c)
    cases hnext : d.next c.ctl c.buffer with
    | wait => exact ⟨acc, c, rfl⟩
    | fail s e =>
      rw [hnext] at hverd
      exact hverd.elim
    | take n s _ =>
      rw [hnext] at hverd
      have hle := hd.take_le hnext
      have hn : least ≤ n := hverd
      refine ih ?_ (h.step hnext) _
      rw [List.length_drop]
      omega

/-! ## Deliveries -/

theorem Returns.steps {piece : List β} (h : d.Returns c piece ms c') :
    d.Steps (c.append piece) ms c' ∧ d.next c'.ctl c'.buffer = .wait := by
  obtain ⟨_, hdrain⟩ := h
  obtain ⟨_, hout, hsteps, hwait⟩ := drain_returned hdrain
  subst hout
  exact ⟨hsteps, hwait rfl⟩

theorem Delivered.steps (hd : d.Stable code) (h : d.Delivered c cut msgs c') :
    d.Steps (c.append cut.flatten) msgs.flatten c' := by
  induction h with
  | nil c =>
    rw [List.flatten_nil, append_nil]
    exact .refl c
  | @cons c c₁ c₂ piece pieces ms msgs first rest ih =>
    rw [List.flatten_cons, append_append]
    exact (first.steps.1.append hd _).trans ih

theorem Delivered.wait (h : d.Delivered c cut msgs c') (hc : d.next c.ctl c.buffer = .wait) :
    d.next c'.ctl c'.buffer = .wait := by
  induction h with
  | nil c => exact hc
  | cons first _ ih => exact ih first.steps.2

theorem Visits.sound (hd : d.Stable code) (h : d.Visits c cut v)
    (hsound : d.Sound least (c.append cut.flatten)) : d.Sound least v := by
  induction h with
  | now steps =>
    rw [List.flatten_cons, append_append] at hsound
    exact (Sound.of_append hd hsound).steps steps
  | later first _ ih =>
    rw [List.flatten_cons, append_append] at hsound
    exact ih (hsound.steps (first.steps.1.append hd _))

theorem Sound.delivered (hd : d.Stable code) (hleast : 0 < least)
    (h : d.Sound least (c.append cut.flatten)) : ∃ msgs c', d.Delivered c cut msgs c' := by
  induction cut generalizing c with
  | nil => exact ⟨[], c, .nil c⟩
  | cons piece _ ih =>
    rw [List.flatten_cons, append_append] at h
    obtain ⟨ms, c₁, hdrain⟩ :=
      (Sound.of_append hd h).drain hd hleast (Nat.lt_succ_self _) []
    have hretu : d.Returns c piece ms c₁ := ⟨_, hdrain⟩
    obtain ⟨msgs, c₂, hrest⟩ := ih (h.steps (hretu.steps.1.append hd _))
    exact ⟨ms :: msgs, c₂, .cons hretu hrest⟩

/-! ## The characterisation -/

theorem Progresses.sound {stream : List β} (h : d.Progresses least c stream) :
    d.Sound least (c.append stream) := by
  have hcut : [stream].flatten = stream := by simp
  intro ms v hsteps
  cases hnext : d.next v.ctl v.buffer with
  | wait => trivial
  | take n s out => exact h.takes [stream] v n s out hcut (.now hsteps) hnext
  | fail s e =>
    -- the loop would have to end by waiting, but it ends by failing
    obtain ⟨_, _, hdeliv⟩ := h.ends [stream] hcut
    cases hdeliv with
    | cons first _ =>
      obtain ⟨hsteps', hwait⟩ := first.steps
      obtain ⟨-, rfl⟩ :=
        hsteps.halt_unique (halted_of_fail hnext) hsteps' (halted_of_wait hwait)
      rw [hwait] at hnext
      cases hnext

theorem progresses_iff_sound (hd : d.Stable code) (hleast : 0 < least)
    (hc : d.next c.ctl c.buffer = .wait) (stream : List β) :
    d.Progresses least c stream ↔ d.Sound least (c.append stream) := by
  refine ⟨fun h => h.sound, fun h => ⟨?_, ?_, ?_, ?_⟩⟩
  · rintro _ rfl
    exact h.delivered hd hleast
  · intro cut msgs c' _ hdeliv
    exact hdeliv.wait hc
  · rintro _ v n s _ rfl hvisits hnext
    have hverd := hvisits.sound hd h [] v (.refl v)
    rw [hnext] at hverd
    exact hverd
  · intro cut₁ cut₂ msgs₁ msgs₂ c₁ c₂ hcut₁ hcut₂ h₁ h₂
    have hsteps₁ := h₁.steps hd
    have hsteps₂ := h₂.steps hd
    rw [hcut₁] at hsteps₁
    rw [hcut₂] at hsteps₂
    exact (hsteps₁.halt_unique (halted_of_wait (h₁.wait hc)) hsteps₂
      (halted_of_wait (h₂.wait hc))).1

end Decoder

end Stream
