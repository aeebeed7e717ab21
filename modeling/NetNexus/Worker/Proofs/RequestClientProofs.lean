import Mathlib.Data.List.Nodup
import NetNexus.Worker.RequestClient

/-!
# Clients of workers: every promise is settled once

Both clients make the same moves, and in these a pending request was posted to the current worker.
So the only harm that a late event can do is that of `RequestWorkerClient`, whose listeners do not
ask which worker they are of.
-/

namespace RequestClient

open Client List

variable {ι : Type} {sent : List ι} {c c' : Client ι} {id : ι} {e : Event ι}

/-- What both clients keep. -/
structure Inv (sent : List ι) (c : Client ι) : Prop where
  nodup : (c.settled.map Prod.fst ++ c.pending).Nodup
  made : ∀ id, id ∈ sent ↔ id ∈ c.settled.map Prod.fst ++ c.pending
  posted : ∀ p ∈ c.posted, p.1 ∈ sent
  current : ∀ id ∈ c.pending, ∃ worker, c.worker = some worker ∧ (id, worker) ∈ c.posted
  closed : c.closed = true → c.pending = []

/-! ## Moves -/

/-- The requests stay. The worker goes, or the client is closed, only when none is pending. -/
structure Idle (c c' : Client ι) : Prop where
  pending : c'.pending = c.pending
  settled : c'.settled = c.settled
  posted : c'.posted = c.posted
  worker : c'.worker = c.worker ∨ c.pending = []
  closed : c'.closed = true → c.pending = []

def Event.fails : Event ι → Bool
  | .error _ | .exit _ _ | .terminate => true
  | _ => false

def Event.about : Event ι → Option ι
  | .message id _ | .timeout id | .abort id => some id
  | _ => none

/-- What an event can do. -/
inductive Move [DecidableEq ι] (c : Client ι) : Event ι → Client ι → Prop
  | idle {e : Event ι} {c' : Client ι} : e.sent = [] → Idle c c' → Move c e c'
  | refused {c' : Client ι} {id : ι} {aborted thrown : Bool} (outcome : Outcome) : Idle c c' →
      (aborted ∨ thrown ∨ c.closed ∨ c.exited) →
      Move c (.send id aborted thrown) (c'.settle id outcome)
  | posted {c' : Client ι} {id : ι} {aborted thrown : Bool} : Idle c c' → c'.worker ≠ none →
      c'.closed = false → Move c (.send id aborted thrown) (c'.post id false)
  | finished {e : Event ι} {id : ι} (outcome : Outcome) : e.about = some id →
      Move c e (c.finish id outcome)
  | failed {e : Event ι} {c' : Client ι} (outcome : Outcome) : e.fails = true →
      c'.pending = [] → c'.settled = c.settled ++ c.pending.map (fun id => (id, outcome)) →
      c'.posted = c.posted → Move c e c'

/-- A request that `postMessage` throws at is refused, any other one is posted. -/
theorem Move.post [DecidableEq ι] {aborted thrown : Bool} (hidle : Idle c c')
    (hwk : c'.worker ≠ none) (hopen : c'.closed = false) :
    Move c (.send id aborted thrown) (c'.post id thrown) := by
  cases thrown with
  | false => exact .posted hidle hwk hopen
  | true =>
    obtain ⟨worker, hsome⟩ := Option.ne_none_iff_exists'.mp hwk
    rw [Client.post, hsome]
    exact .refused .postFailed hidle (.inr (.inl rfl))

theorem Idle.refl (h : Inv sent c) : Idle c c := ⟨rfl, rfl, rfl, .inl rfl, h.closed⟩

namespace Inv

theorem initial : Inv [] ({} : Client ι) := ⟨by simp, by simp, by simp, by simp, by simp⟩

variable (h : Inv sent c)
include h

theorem idle (hidle : Idle c c') : Inv sent c' := by
  refine ⟨?_, ?_, ?_, ?_, fun hcl => hidle.pending.trans (hidle.closed hcl)⟩
  · rw [hidle.settled, hidle.pending]
    exact h.nodup
  · rw [hidle.settled, hidle.pending]
    exact h.made
  · rw [hidle.posted]
    exact h.posted
  · rw [hidle.pending, hidle.posted]
    rcases hidle.worker with hwk | hnone
    · exact hwk ▸ h.current
    · rw [hnone]
      exact nofun

theorem settle (hnew : id ∉ sent) (outcome : Outcome) : Inv (id :: sent) (c.settle id outcome) := by
  have hfree : id ∉ c.settled.map Prod.fst ++ c.pending := mt (h.made id).mpr hnew
  refine { h with nodup := ?_, made := ?_, posted := ?_ }
  · simp only [Client.settle, map_append, append_assoc]
    exact perm_middle.nodup_iff.mpr (nodup_cons.mpr ⟨hfree, h.nodup⟩)
  · intro other
    have hmade := h.made other
    simp only [Client.settle]
    grind
  · exact fun p hp => mem_cons_of_mem _ (h.posted p hp)

theorem post (hnew : id ∉ sent) (hwk : c.worker ≠ none)
    (hopen : c.closed = false) : Inv (id :: sent) (c.post id false) := by
  have hfree : id ∉ c.settled.map Prod.fst ++ c.pending := mt (h.made id).mpr hnew
  unfold Client.post
  split
  next worker hw =>
    rw [if_neg Bool.false_ne_true]
    refine ⟨?_, ?_, ?_, ?_, by simp [hopen]⟩
    · rw [← append_assoc]
      exact nodup_append_comm.mp (nodup_cons.mpr ⟨hfree, h.nodup⟩)
    · intro other
      have hmade := h.made other
      grind
    · rw [forall_mem_append, forall_mem_singleton]
      exact ⟨fun p hp => mem_cons_of_mem _ (h.posted p hp), mem_cons_self⟩
    · rw [forall_mem_append, forall_mem_singleton]
      refine ⟨fun other hother => ?_, worker, hw, mem_concat_self⟩
      obtain ⟨w, hw', hp⟩ := h.current other hother
      exact ⟨w, hw', mem_append_left _ hp⟩
  next hnone => exact absurd hnone hwk

theorem fail {outcome : Outcome} (hpend : c'.pending = [])
    (hsett : c'.settled = c.settled ++ c.pending.map fun id => (id, outcome))
    (hpost : c'.posted = c.posted) : Inv sent c' := by
  have hmap : c'.settled.map Prod.fst = c.settled.map Prod.fst ++ c.pending := by
    rw [hsett]
    simp [Function.comp_def]
  refine ⟨?_, ?_, hpost ▸ h.posted, ?_, fun _ => hpend⟩
  · rw [hmap, hpend, List.append_nil]
    exact h.nodup
  · rw [hmap, hpend, List.append_nil]
    exact h.made
  · rw [hpend]
    exact nofun

theorem pending_eq_nil (hnone : c.worker = none) : c.pending = [] := by
  refine eq_nil_iff_forall_not_mem.mpr fun id hid => ?_
  obtain ⟨_, hwk, -⟩ := h.current id hid
  rw [hnone] at hwk
  cases hwk

theorem settled_of_idle (hnone : c.pending = []) (hid : id ∈ sent) :
    id ∈ c.settled.map Prod.fst := by
  have hmade := (h.made id).mp hid
  rwa [hnone, List.append_nil] at hmade

variable [DecidableEq ι]

theorem finish (id : ι) (outcome : Outcome) : Inv sent (c.finish id outcome) := by
  unfold Client.finish
  split
  next hid =>
    have hperm : ((c.settled ++ [(id, outcome)]).map Prod.fst ++ c.pending.erase id).Perm
        (c.settled.map Prod.fst ++ c.pending) := by
      rw [map_append, append_assoc]
      exact (perm_cons_erase hid).symm.append_left _
    refine { h with nodup := ?_, made := ?_, current := ?_, closed := ?_ }
    · exact hperm.nodup_iff.mpr h.nodup
    · exact fun other => (h.made other).trans hperm.mem_iff.symm
    · exact fun other hother => h.current other (mem_of_mem_erase hother)
    · intro hcl
      rw [h.closed hcl] at hid
      cases hid
  next => exact h

theorem move (hnew : ∀ id ∈ e.sent, id ∉ sent) (hmove : Move c e c') : Inv (e.sent ++ sent) c' := by
  cases hmove with
  | idle hsent hidle =>
    rw [hsent]
    exact h.idle hidle
  | refused outcome hidle _ =>
    exact (h.idle hidle).settle (hnew _ (by simp [Event.sent])) outcome
  | posted hidle hwk hopen =>
    exact (h.idle hidle).post (hnew _ (by simp [Event.sent])) hwk hopen
  | finished outcome hid => cases e <;> cases hid <;> exact h.finish _ outcome
  | failed _ hfails hpend hsett hpost =>
    cases e <;> cases hfails <;> exact h.fail hpend hsett hpost

end Inv

variable [DecidableEq ι]

theorem Move.settled (hmove : Move c e c') : c.settled <+: c'.settled ∧ ∀ s ∈ c'.settled,
    s ∈ c.settled ∨ c.Owns e s.1 ∨ e.reporter ≠ none ∧ s.1 ∈ c.pending := by
  cases hmove with
  | idle _ hidle => exact ⟨hidle.settled ▸ prefix_rfl, fun s hs => .inl (hidle.settled ▸ hs)⟩
  | @refused c' id _ _ outcome hidle hreason =>
    refine ⟨hidle.settled ▸ prefix_append .., forall_mem_append.mpr ⟨fun s hs => ?_,
      forall_mem_singleton.mpr (.inr (.inl ⟨rfl, hreason⟩))⟩⟩
    exact .inl (hidle.settled ▸ hs)
  | @posted c' id _ _ hidle _ _ =>
    have hsame : (c'.post id false).settled = c.settled := by
      unfold Client.post
      split
      · rw [if_neg Bool.false_ne_true]
        exact hidle.settled
      · exact hidle.settled
    exact ⟨hsame ▸ prefix_rfl, fun s hs => .inl (hsame ▸ hs)⟩
  | @finished _ id outcome hid =>
    unfold finish
    split
    · refine ⟨prefix_append .., forall_mem_append.mpr ⟨fun _ => .inl, forall_mem_singleton.mpr ?_⟩⟩
      cases e <;> cases hid <;> exact .inr (.inl rfl)
    · exact ⟨prefix_rfl, fun s hs => .inl hs⟩
  | failed _ hfails _ hsett _ =>
    refine ⟨hsett ▸ prefix_append .., fun s hs => ?_⟩
    rw [hsett] at hs
    rcases mem_append.mp hs with hs | hs
    · exact .inl hs
    · obtain ⟨_, hid, rfl⟩ := mem_map.mp hs
      cases e <;> cases hfails
      · exact .inr (.inr ⟨nofun, hid⟩)
      · exact .inr (.inr ⟨nofun, hid⟩)
      · exact .inr (.inl trivial)

theorem Move.owned (hmove : Move c e c') (h : Inv sent c)
    (hrpt : ∀ worker, e.reporter = some worker → c.pending = [] ∨
      ∀ current, c.worker = some current → current = worker) :
    ∀ s ∈ c'.settled, s ∈ c.settled ∨ c.Owns e s.1 := by
  intro s hs
  rcases hmove.settled.2 s hs with hs | hs | ⟨he, hs⟩
  · exact .inl hs
  · exact .inr hs
  · obtain ⟨current, hcur, hpost⟩ := h.current s.1 hs
    obtain ⟨worker, hwk⟩ := Option.ne_none_iff_exists'.mp he
    rcases hrpt worker hwk with hnil | hsame
    · rw [hnil] at hs
      cases hs
    · rw [hsame current hcur] at hpost
      cases e <;> cases hwk <;> exact .inr hpost

omit [DecidableEq ι] in
theorem Admits.new (he : c.Admits sent e) : ∀ id ∈ e.sent, id ∉ sent := by
  intro id hid
  cases e <;> cases hid
  · exact he
  · contradiction

section

variable (h : Inv sent c)
include h

theorem settlesOnce {step : Client ι → Event ι → Client ι}
    (hmove : ∀ e, Move c e (step c e)) (hterm : (step c .terminate).pending = [])
    (hexit : ∀ worker code, (step c (.exit worker code)).pending = []) :
    SettlesOnce step sent c where
  once := (nodup_append.mp h.nodup).1
  kept e := (hmove e).settled.1
  terminate _ hid :=
    (h.move (fun _ => not_mem_nil.elim) (hmove .terminate)).settled_of_idle hterm hid
  exit worker code _ hid :=
    (h.move (fun _ => not_mem_nil.elim) (hmove _)).settled_of_idle
      (hexit worker code) (h.posted _ hid)

theorem handleExit_move (current : Option ℕ) (exited : Bool) (worker : ℕ) (code : ℤ) :
    Move c (.exit worker code) ({ c with worker := current, exited := exited }.handleExit code) ∧
      ({ c with worker := current, exited := exited }.handleExit code).pending = [] := by
  unfold handleExit
  split
  next => exact ⟨.failed .exit rfl rfl rfl rfl, rfl⟩
  next hcode =>
    have hc : c.closed = true ∧ code = 0 := by simpa using hcode
    have hnone := h.closed hc.1
    exact ⟨.idle rfl ⟨rfl, rfl, rfl, .inr hnone, fun _ => hnone⟩, hnone⟩

/-! ## `RequestWorkerClient` -/

namespace RequestWorkerClient

theorem onExit_move (worker : ℕ) (code : ℤ) :
    Move c (.exit worker code) (onExit c code) ∧ (onExit c code).pending = [] :=
  handleExit_move h none _ worker code

omit [DecidableEq ι] h in
theorem worker_onExit (c : Client ι) (code : ℤ) : (onExit c code).worker = none := by
  unfold onExit handleExit
  split <;> rfl

variable (hc : c.closed = true → c.worker = none)
include hc

omit [DecidableEq ι] in
theorem start_idle : Idle c (start c) ∧ (start c).worker ≠ none ∧ (start c).closed = false := by
  unfold start
  split
  next hsome =>
    refine ⟨.refl h, Option.isSome_iff_ne_none.mp hsome, ?_⟩
    cases hcl : c.closed with
    | false => rfl
    | true =>
      rw [hc hcl] at hsome
      cases hsome
  next hnone =>
    have hnil := h.pending_eq_nil (Option.not_isSome_iff_eq_none.mp hnone)
    exact ⟨⟨rfl, rfl, rfl, .inr hnil, nofun⟩, Option.some_ne_none _, rfl⟩

variable (e : Event ι)

theorem step_move : Move c e (step c e) := by
  obtain ⟨hidle, hwk, hopen⟩ := start_idle h hc
  cases e with
  | start => exact .idle rfl hidle
  | send _ _ _ =>
    simp only [step, sendRequest, hopen, Bool.false_eq_true, if_false]
    split
    next habor => exact .refused _ hidle (.inl habor)
    next => exact .post hidle hwk hopen
  | message _ _ | timeout _ | abort _ => exact .finished _ rfl
  | error _ => exact .failed .error rfl rfl rfl rfl
  | exit worker code => exact (onExit_move h worker code).1
  | terminate => exact .failed .terminated rfl rfl rfl rfl
  | terminated _ => exact .idle rfl (.refl h)

omit h in
theorem step_closed : (step c e).closed = true → (step c e).worker = none := by
  cases e <;> simp only [step, start, sendRequest, onExit, terminate, handleMessage,
    rejectAndCancel, finish, handleExit, failAll, settle,
    post] <;> repeat' split
  all_goals grind

omit h hc in
theorem reach_inv (hreach : Reach step sent c) :
    Inv sent c ∧ (c.closed = true → c.worker = none) := by
  induction hreach with
  | nil => exact ⟨.initial, nofun⟩
  | step _ he ih =>
    obtain ⟨h, hc⟩ := ih
    exact ⟨h.move (Admits.new he) (step_move h hc _), step_closed hc _⟩

/-- Late reports are the only ones that harm the current worker. -/
theorem fair_iff : Fair c e (step c e) ↔ c.Timely e := by
  constructor
  · intro hfair
    cases e with
    | error worker =>
      by_cases hnone : c.pending = []
      · exact .inr hnone
      · refine .inl fun current hcur => ?_
        by_contra hne
        exact hnone (hfair.late worker current rfl hcur hne).2.symm
    | exit worker _ =>
      intro current hcur
      by_contra hne
      have hwk := (hfair.late worker current rfl hcur hne).1
      rw [hcur, step, worker_onExit] at hwk
      cases hwk
    | _ => trivial
  · intro htimely
    refine ⟨(step_move h hc e).owned h ?_, ?_⟩
    · intro worker he
      cases e <;> cases he
      · exact htimely.symm
      · exact .inr htimely
    · intro worker current he hcur hne
      cases e <;> cases he
      · exact ⟨rfl, (htimely.resolve_left fun hwk => hne (hwk current hcur)).symm⟩
      · exact absurd (htimely current hcur) hne

end RequestWorkerClient

/-! ## `RequestProcessClient` -/

namespace RequestProcessClient

/-- There is one process at most. -/
structure Single (c : Client ι) : Prop where
  started : c.started ≤ 1
  worker : ∀ worker, c.worker = some worker → worker < c.started
  fresh : (c.worker.isSome || c.closed || c.exited) = false → c.started = 0
  terminating : c.terminating = true → c.closed = true

omit [DecidableEq ι] in
theorem start_idle : Idle c (start c) ∧
    (c.closed = false → c.exited = false → (start c).worker ≠ none) := by
  unfold start
  split
  next hsome =>
    refine ⟨.refl h, fun hcl hexited => Option.isSome_iff_ne_none.mp ?_⟩
    simpa [hcl, hexited] using hsome
  next hnone =>
    have hguard : (c.worker = none ∧ c.closed = false) ∧ c.exited = false := by simpa using hnone
    exact ⟨⟨rfl, rfl, rfl, .inr (h.pending_eq_nil hguard.1.1), h.closed⟩,
      fun _ _ => Option.some_ne_none _⟩

omit [DecidableEq ι] h in
theorem closed_start (c : Client ι) : (start c).closed = c.closed := by
  unfold start
  split <;> rfl

theorem onExit_move (worker : ℕ) (code : ℤ) :
    Move c (.exit worker code) (onExit c worker code) ∧ (onExit c worker code).pending = [] :=
  handleExit_move h _ true worker code

theorem step_move (hs : Single c) (e : Event ι) : Move c e (step c e) := by
  obtain ⟨hidle, hwk⟩ := start_idle h
  cases e with
  | start => exact .idle rfl hidle
  | send _ _ _ =>
    simp only [step, sendRequest]
    split
    next hcl => exact .refused _ (.refl h) (.inr (.inr (.inl hcl)))
    next hcl =>
      split
      next hexited => exact .refused _ (.refl h) (.inr (.inr (.inr hexited)))
      next hexited =>
        split
        next habor => exact .refused _ (.refl h) (.inl habor)
        next =>
          rw [Bool.not_eq_true] at hcl hexited
          exact .post hidle (hwk hcl hexited) ((closed_start c).trans hcl)
  | message _ _ | timeout _ | abort _ => exact .finished _ rfl
  | error _ => exact .failed .error rfl rfl rfl rfl
  | exit worker code => exact (onExit_move h worker code).1
  | terminate =>
    simp only [step, terminate]
    split
    next => exact .idle rfl (.refl h)
    next => exact .failed .terminated rfl rfl rfl rfl
  | terminated _ =>
    simp only [step, onTerminated]
    split
    next => exact .idle rfl (.refl h)
    next hterm =>
      have hnone := h.closed (hs.terminating (by simpa using hterm))
      split <;> exact .idle rfl ⟨rfl, rfl, rfl, .inr hnone, fun _ => hnone⟩

omit [DecidableEq ι] h in
theorem Single.start (hs : Single c) : Single (start c) := by
  unfold RequestProcessClient.start
  split
  next => exact hs
  next hnone =>
    have hzero := hs.fresh (Bool.eq_false_iff.mpr hnone)
    refine ⟨by simp [spawn, hzero], ?_, ?_, hs.terminating⟩ <;> simp [spawn]

omit h in
theorem Single.kept (h : Single c) (e : Event ι) : Single (step c e) := by
  have hstart := h.start
  cases e with
  | start => exact hstart
  | send _ _ _ =>
    simp only [step, sendRequest]
    repeat' split
    · exact { h with }
    · exact { h with }
    · exact { h with }
    · unfold post
      repeat' split
      · exact { hstart with }
      · exact { hstart with }
      · exact hstart
  | message | timeout | abort =>
    simp only [step, handleMessage, rejectAndCancel, finish]
    split
    · exact { h with }
    · exact h
  | error => exact { h with }
  | exit _ _ =>
    have hwk := h.worker
    simp only [step, onExit, handleExit, failAll]
    split
    · exact { h with worker := by grind, fresh := by simp }
    · exact { h with worker := by grind, fresh := by simp }
  | terminate =>
    simp only [step, terminate]
    split
    · exact h
    · exact { h with fresh := by simp, terminating := fun _ => rfl }
  | terminated _ =>
    simp only [step, onTerminated]
    repeat' split
    · exact h
    · exact { h with worker := nofun, fresh := by grind [h.terminating] }
    · exact { h with terminating := nofun }

omit h in
theorem reach_inv (hreach : Reach step sent c) : Inv sent c ∧ Single c := by
  induction hreach with
  | nil => exact ⟨.initial, Nat.zero_le _, nofun, fun _ => rfl, nofun⟩
  | step _ he ih =>
    obtain ⟨h, hs⟩ := ih
    exact ⟨h.move (Admits.new he) (step_move h hs _), hs.kept _⟩

theorem fair (hs : Single c) (he : c.Admits sent e) : Fair c e (step c e) := by
  have hsame : ∀ worker current, e.reporter = some worker → c.worker = some current →
      current = worker := by
    intro worker current hwk hcur
    have hlt : worker < c.started := by cases e <;> cases hwk <;> exact he
    have hlt' := hs.worker current hcur
    have hle := hs.started
    omega
  refine ⟨(step_move h hs e).owned h fun worker hwk => .inr fun current =>
    hsame worker current hwk, ?_⟩
  exact fun worker current hwk hcur hne =>
    absurd (hsame worker current hwk hcur) hne

end RequestProcessClient

end

/-! ## Both clients -/

/-- However the events of the workers, the requests and the calls of `terminate` interleave, every
promise is settled once at most, and once when its worker exits or the client is terminated. The
process client settles it only for a reason of its own. The worker client does so exactly when no
worker reports an error or its end while another one has taken its place. -/
theorem settles_once :
    (∀ (sent : List ι) (c : Client ι), Reach RequestProcessClient.step sent c →
      SettlesOnce RequestProcessClient.step sent c ∧
        ∀ e, c.Admits sent e → Fair c e (RequestProcessClient.step c e)) ∧
    ∀ (sent : List ι) (c : Client ι), Reach RequestWorkerClient.step sent c →
      SettlesOnce RequestWorkerClient.step sent c ∧
        ∀ e, c.Admits sent e → (Fair c e (RequestWorkerClient.step c e) ↔ c.Timely e) := by
  constructor
  · intro sent c hreach
    obtain ⟨h, hs⟩ := RequestProcessClient.reach_inv hreach
    refine ⟨settlesOnce h (RequestProcessClient.step_move h hs) ?_ ?_,
      fun e he => RequestProcessClient.fair h hs he⟩
    · show (RequestProcessClient.terminate c).pending = _
      unfold RequestProcessClient.terminate
      split
      next hterm => exact h.closed (hs.terminating hterm)
      next => rfl
    · exact fun worker code => (RequestProcessClient.onExit_move h worker code).2
  · intro sent c hreach
    obtain ⟨h, hc⟩ := RequestWorkerClient.reach_inv hreach
    exact ⟨settlesOnce h (RequestWorkerClient.step_move h hc) rfl
      fun worker code => (RequestWorkerClient.onExit_move h worker code).2,
      fun e _ => RequestWorkerClient.fair_iff h hc e⟩

/-- The only worker exits while a request is pending: the request fails for that reason. -/
theorem settles_once_timely :
    ∃ sent c, Reach (@RequestWorkerClient.step ℕ _) sent c ∧ c.Admits sent (.exit 0 1) ∧
      c.worker = some 0 ∧ c.pending = [7] ∧
      Fair c (.exit 0 1) (RequestWorkerClient.step c (.exit 0 1)) ∧
      (RequestWorkerClient.step c (.exit 0 1)).settled = [(7, .exit)] := by
  have hreach := (@Reach.nil ℕ RequestWorkerClient.step).step (e := .send 7 false false) not_mem_nil
  have hfair := (settles_once.2 _ _ hreach).2 (.exit 0 1) Nat.one_pos
  exact ⟨_, _, hreach, Nat.one_pos, rfl, rfl,
    hfair.mpr fun _ hcur => (Option.some.inj hcur).symm, rfl⟩

/-- A worker is terminated and another one is started. When the former exits at last, the request
that was posted to the latter fails, and the client forgets its worker. -/
theorem late_exit_fails_request :
    ∃ sent c, Reach (@RequestWorkerClient.step ℕ _) sent c ∧ c.Admits sent (.exit 0 1) ∧
      c.worker = some 1 ∧ c.posted = [(7, 1)] ∧ c.settled = [] ∧
      (RequestWorkerClient.step c (.exit 0 1)).worker = none ∧
      (RequestWorkerClient.step c (.exit 0 1)).settled = [(7, .exit)] := by
  have hrest := ((@Reach.nil ℕ RequestWorkerClient.step).step (e := .start)
    trivial).step (e := .terminate) trivial
  exact ⟨_, _, hrest.step (e := .send 7 false false) not_mem_nil, Nat.two_pos,
    rfl, rfl, rfl, rfl, rfl⟩

end RequestClient
