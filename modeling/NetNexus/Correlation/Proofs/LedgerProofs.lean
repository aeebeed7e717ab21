import NetNexus.Correlation.Ledger
import Mathlib.Data.List.Nodup
import Mathlib.Tactic.Cases

/-!
# Every request is settled once, by its own reply

`Sound` is the invariant of a session. From it: no request is settled twice, a reply settles a
request only under the id of that request and while it waits, and pending and retired ids are
apart. With a peer that answers each request at most once, a reply settles the request that it is
the reply to and no other one.
-/

namespace Correlation

open Function Ledger List

variable {ι ρ μ φ : Type*}

theorem settled_concat (log : List (Entry ι ρ μ φ)) (e : Entry ι ρ μ φ) :
    settled (log ++ [e]) = settled log ++ e.settles.toList := by
  cases h : e.settles <;> simp [h, settled]

variable {carried : μ → Option ι} {s t u : Ledger ι} {log log' : List (Entry ι ρ μ φ)}
  {e : Entry ι ρ μ φ} {n k : ℕ} {m : μ} {source : ℕ → ℕ} {wire : ρ → Option ι}

/-! ## The peer -/

theorem ReplyAt.lt (h : ReplyAt log k m) : k < log.length := by
  by_contra hle
  rw [ReplyAt, getElem?_eq_none (Nat.le_of_not_lt hle)] at h
  cases h

theorem replyAt_append (h : ReplyAt log k m) : ReplyAt (log ++ [e]) k m := by
  rw [ReplyAt, getElem?_append_left h.lt]
  exact h

theorem replyAt_last (h : e.reply = some m) : ReplyAt (log ++ [e]) log.length m := by
  rw [ReplyAt, getElem?_concat_length]
  exact h

/-- Every request carries the id under which it is issued. -/
def Wired (wire : ρ → Option ι) (log : List (Entry ι ρ μ φ)) : Prop :=
  ∀ n id content, .issued n id content ∈ log → wire content = some id

theorem Wired.of_append (h : Wired wire (log ++ [e])) : Wired wire log :=
  fun n id content hmem => h n id content (mem_append_left _ hmem)

theorem Serves.of_append (h : Serves carried wire (log ++ [e]) source) :
    Serves carried wire log source where
  sent := by
    intro k m hk
    obtain ⟨j, hj, id, content, hiss, hid⟩ := h.sent (replyAt_append hk)
    rw [getElem?_append_left (hj.trans hk.lt)] at hiss
    exact ⟨j, hj, id, content, hiss, hid⟩
  once := fun hj hk => h.once (replyAt_append hj) (replyAt_append hk)

/-- A request went out under the id and no reply to it has come. -/
def Outstanding (log : List (Entry ι ρ μ φ)) (source : ℕ → ℕ) (n : ℕ) (id : ι) : Prop :=
  (∃ content, .issued n id content ∈ log) ∧ ∀ k m, ReplyAt log k m → source k ≠ n

/-- A request without a reply waits or its id is retired, and no two such requests have one id. -/
structure Guarded (log : List (Entry ι ρ μ φ)) (source : ℕ → ℕ) (s : Ledger ι) : Prop where
  kept : ∀ {n id}, Outstanding log source n id → s.pending id = some n ∨ id ∈ s.retired
  unique : ∀ {n n' id}, Outstanding log source n id → Outstanding log source n' id → n = n'

theorem Outstanding.cases {id : ι} (h : Outstanding (log ++ [e]) source n id) :
    (∃ content, e = .issued n id content) ∨ Outstanding log source n id := by
  obtain ⟨⟨content, hmem⟩, hreply⟩ := h
  rcases mem_append.mp hmem with hmem | hmem
  · exact .inr ⟨⟨content, hmem⟩, fun k m hk => hreply k m (replyAt_append hk)⟩
  · exact .inl ⟨content, (mem_singleton.mp hmem).symm⟩

/-- An entry that sends no request leaves those that wait or whose ids are retired guarded. -/
theorem Guarded.keep (h : Guarded log source s) (he : ∀ n id content, e ≠ .issued n id content)
    (hkept : ∀ {n id}, Outstanding (log ++ [e]) source n id → Outstanding log source n id →
      s.pending id = some n ∨ id ∈ s.retired → t.pending id = some n ∨ id ∈ t.retired) :
    Guarded (log ++ [e]) source t := by
  have hold : ∀ {n id}, Outstanding (log ++ [e]) source n id → Outstanding log source n id := by
    intro n id hn
    rcases hn.cases with ⟨content, rfl⟩ | hn
    · exact absurd rfl (he n id content)
    · exact hn
  exact ⟨fun hn => hkept hn (hold hn) (h.kept (hold hn)),
    fun hn hn' => h.unique (hold hn) (hold hn')⟩

/-- The request that a reply is the reply to, at the end of a session. -/
theorem Guarded.source_outstanding (hserv : Serves carried wire (log ++ [e]) source)
    (hwire : Wired wire (log ++ [e])) (he : e.reply = some m) :
    ∃ id, carried m = some id ∧ Outstanding log source (source log.length) id := by
  have hlast : ReplyAt (log ++ [e]) log.length m := replyAt_last he
  obtain ⟨j, hj, id, content, hiss, hid⟩ := hserv.sent hlast
  have hmem := mem_of_getElem? hiss
  rw [getElem?_append_left hj] at hiss
  refine ⟨id, hid.trans (hwire _ _ _ hmem), ⟨content, mem_of_getElem? hiss⟩, ?_⟩
  intro k m' hk heq
  have := hserv.once (replyAt_append hk) hlast heq
  exact absurd hk.lt (this ▸ Nat.lt_irrefl _)

variable [DecidableEq ι]

/-! ## Sessions -/

theorem Ledger.Steps.trans (h : Steps carried s log t) (h' : Steps carried t log' u) :
    Steps carried s (log ++ log') u := by
  induction h' with
  | nil => simpa using h
  | snoc _ hstep ih =>
    rw [← append_assoc]
    exact ih.snoc hstep

/-- The end of a session: the requests that wait fail one after the other. -/
theorem Ledger.Steps.dropAll {rows : List (ι × ℕ)} (hnodup : (rows.map Prod.fst).Nodup)
    (hrows : ∀ id n, s.pending id = some n ↔ (id, n) ∈ rows) (failure : φ) :
    Steps carried s ((rows.map fun row => .dropped row.2 failure) ++ [(.closed : Entry ι ρ μ φ)])
      ⟨s.next, fun _ => none, ∅, false⟩ := by
  induction rows generalizing s with
  | nil =>
    have hnone : ∀ id, s.pending id = none := by
      intro id
      by_contra hne
      obtain ⟨n, hn⟩ := Option.ne_none_iff_exists'.mp hne
      exact absurd ((hrows id n).mp hn) not_mem_nil
    have hstep : Step carried s (.closed : Entry ι ρ μ φ)
        { s with retired := ∅, isOpen := false } := .closed hnone
    rw [funext hnone] at hstep
    exact Steps.nil.snoc hstep
  | cons row rows ih =>
    obtain ⟨hfirst, hnodup⟩ := nodup_cons.mp hnodup
    have hstep : Step carried s (.dropped row.2 failure : Entry ι ρ μ φ)
        { s.release row.1 with isOpen := false } :=
      .dropped failure ((hrows row.1 row.2).mpr mem_cons_self)
    have hrest : ∀ id n, (s.release row.1).pending id = some n ↔ (id, n) ∈ rows := by
      intro id n
      by_cases hid : id = row.1
      · subst hid
        have hnot : (row.1, n) ∉ rows := fun hmem =>
          hfirst (mem_map.mpr ⟨_, hmem, rfl⟩)
        simp [release, hnot]
      · rw [show (s.release row.1).pending id = s.pending id from update_of_ne hid ..,
          hrows, mem_cons]
        constructor
        · rintro (heq | hmem)
          · exact absurd (congrArg Prod.fst heq) hid
          · exact hmem
        · exact .inr
    have htail := ih (s := { s.release row.1 with isOpen := false }) hnodup hrest
    exact (Steps.nil.snoc hstep).trans htail

theorem Ledger.Steps.single (h : Step carried s e t) : Steps carried s [e] t := Steps.nil.snoc h

theorem Ledger.Steps.before {before after : List (Entry ι ρ μ φ)}
    (h : Steps carried s (before ++ e :: after) u) :
    ∃ t v, Steps carried s before t ∧ Step carried t e v := by
  generalize hlog : before ++ e :: after = log at h
  induction h generalizing after with
  | nil => simp at hlog
  | @snoc log t u last hsteps hstep ih =>
    rcases eq_nil_or_concat after with rfl | ⟨_, _, rfl⟩
    · obtain ⟨rfl, hlast⟩ := append_inj' hlog rfl
      cases hlast
      exact ⟨t, u, hsteps, hstep⟩
    · rw [concat_eq_append, ← cons_append, ← append_assoc] at hlog
      obtain ⟨hlog, -⟩ := append_inj' hlog rfl
      exact ih hlog

/-! ## The invariant -/

/-- What holds of a ledger and its log at any time. -/
structure Sound (log : List (Entry ι ρ μ φ)) (s : Ledger ι) : Prop where
  nodup : (settled log).Nodup
  made : ∀ n, n < s.next ↔ n ∈ settled log ∨ ∃ id, s.pending id = some n
  waits : ∀ {id n}, s.pending id = some n → n ∉ settled log
  unique : ∀ {id id' n}, s.pending id = some n → s.pending id' = some n → id = id'
  disjoint : ∀ {id}, id ∈ s.retired → s.pending id = none
  sent : ∀ {id n}, s.pending id = some n → ∃ content, .issued n id content ∈ log

namespace Sound

omit [DecidableEq ι] in
theorem initial : Sound ([] : List (Entry ι ρ μ φ)) Ledger.initial where
  nodup := nodup_nil
  made := by simp [Ledger.initial, settled]
  waits := nofun
  unique := nofun
  disjoint := nofun
  sent := nofun

variable {id : ι}

theorem release_eq_some {id' : ι} {n : ℕ} :
    (s.release id).pending id' = some n ↔ id' ≠ id ∧ s.pending id' = some n := by
  by_cases hid : id' = id
  · subst hid
    simp [release]
  · simp [release, hid]

/-- A request is settled that waited under the id; its id may be retired, and the session may be
over. -/
theorem release (h : Sound log s) {n : ℕ} (hpend : s.pending id = some n)
    (he : e.settles = some n) {retired : Set ι} (hret : retired ⊆ insert id s.retired)
    (isOpen : Bool) : Sound (log ++ [e]) { s.release id with retired, isOpen } := by
  have hsett : settled (log ++ [e]) = settled log ++ [n] := by
    rw [settled_concat, he, Option.toList_some]
  have hold :
      ∀ {id' n'}, (s.release id).pending id' = some n' → s.pending id' = some n' ∧ n' ≠ n := by
    intro id' n' h'
    obtain ⟨hne, h'⟩ := release_eq_some.mp h'
    refine ⟨h', ?_⟩
    rintro rfl
    exact hne (h.unique h' hpend)
  constructor
  · rw [hsett, ← concat_eq_append, nodup_concat]
    exact ⟨h.waits hpend, h.nodup⟩
  · intro n'
    rw [hsett, mem_append, mem_singleton]
    refine (h.made n').trans ⟨?_, ?_⟩
    · rintro (hn | ⟨id', hid'⟩)
      · exact .inl (.inl hn)
      · by_cases hid : id' = id
        · subst hid
          exact .inl (.inr (Option.some.inj (hid'.symm.trans hpend)))
        · exact .inr ⟨id', release_eq_some.mpr ⟨hid, hid'⟩⟩
    · rintro ((hn | rfl) | ⟨id', hid'⟩)
      · exact .inl hn
      · exact .inr ⟨id, hpend⟩
      · exact .inr ⟨id', (hold hid').1⟩
  · intro id' n' h'
    rw [hsett, mem_append, mem_singleton]
    rintro (hn | rfl)
    · exact h.waits (hold h').1 hn
    · exact (hold h').2 rfl
  · intro id' id'' n' h' h''
    exact h.unique (hold h').1 (hold h'').1
  · intro id' hid'
    rcases hret hid' with rfl | hid'
    · simp [Ledger.release]
    · by_contra hne
      obtain ⟨_, hn'⟩ := Option.ne_none_iff_exists'.mp hne
      have hwaits := (hold hn').1
      rw [h.disjoint hid'] at hwaits
      cases hwaits
  · exact fun h' => (h.sent (hold h').1).imp fun _ => mem_append_left _

omit [DecidableEq ι] in
/-- Nothing is settled and no request is made, and ids are only taken off the retired ones. -/
theorem keep (h : Sound log s) (he : e.settles = none) {retired : Set ι}
    (hret : retired ⊆ s.retired) (isOpen : Bool) :
    Sound (log ++ [e]) { s with retired, isOpen } := by
  have hsett : settled (log ++ [e]) = settled log := by
    rw [settled_concat, he, Option.toList_none, append_nil]
  constructor
  · rw [hsett]
    exact h.nodup
  · rw [hsett]
    exact h.made
  · rw [hsett]
    exact h.waits
  · exact h.unique
  · intro id hid
    exact h.disjoint (hret hid)
  · exact fun hpend => (h.sent hpend).imp fun _ => mem_append_left _

theorem issue (h : Sound log s) (hpend : s.pending id = none) (hret : id ∉ s.retired)
    (content : ρ) : Sound (log ++ [.issued s.next id content])
      { s with next := s.next + 1, pending := update s.pending id (some s.next) } := by
  have hsett : settled (log ++ [(.issued s.next id content)]) = settled log :=
    (settled_concat log _).trans (append_nil _)
  have hcases : ∀ {id' n}, update s.pending id (some s.next) id' = some n →
      (id' = id ∧ n = s.next) ∨ (id' ≠ id ∧ s.pending id' = some n ∧ n < s.next) := by
    intro id' n h'
    by_cases hid : id' = id
    · subst hid
      rw [update_self] at h'
      exact .inl ⟨rfl, (Option.some.inj h').symm⟩
    · rw [update_of_ne hid] at h'
      exact .inr ⟨hid, h', (h.made n).mpr (.inr ⟨id', h'⟩)⟩
  constructor
  · rw [hsett]
    exact h.nodup
  · intro n
    rw [hsett]
    constructor
    · intro hn
      rcases Nat.lt_succ_iff_lt_or_eq.mp hn with hn | rfl
      · rcases (h.made n).mp hn with hn | ⟨id', hid'⟩
        · exact .inl hn
        · refine .inr ⟨id', ?_⟩
          have hid : id' ≠ id := by
            rintro rfl
            rw [hpend] at hid'
            cases hid'
          exact (update_of_ne hid _ _).trans hid'
      · exact .inr ⟨id, update_self ..⟩
    · rintro (hn | ⟨id', hid'⟩)
      · exact Nat.lt_succ_of_lt ((h.made n).mpr (.inl hn))
      · rcases hcases hid' with ⟨-, rfl⟩ | ⟨-, -, hn⟩
        · exact Nat.lt_succ_self _
        · exact Nat.lt_succ_of_lt hn
  · intro id' n h'
    rw [hsett]
    rcases hcases h' with ⟨-, rfl⟩ | ⟨-, h', -⟩
    · intro hn
      exact absurd ((h.made _).mpr (.inl hn)) (Nat.lt_irrefl _)
    · exact h.waits h'
  · intro id' id'' n h' h''
    rcases hcases h' with ⟨rfl, rfl⟩ | ⟨-, h', hn⟩ <;>
      rcases hcases h'' with ⟨rfl, hn'⟩ | ⟨-, h'', hn'⟩
    · rfl
    · exact absurd hn' (Nat.lt_irrefl _)
    · exact absurd (hn' ▸ hn) (Nat.lt_irrefl _)
    · exact h.unique h' h''
  · intro id' hid'
    have hid : id' ≠ id := by
      rintro rfl
      exact hret hid'
    exact (update_of_ne hid _ _).trans (h.disjoint hid')
  · intro id' n h'
    rcases hcases h' with ⟨rfl, rfl⟩ | ⟨-, h', -⟩
    · exact ⟨content, by simp⟩
    · exact (h.sent h').imp fun _ => mem_append_left _

omit [DecidableEq ι] in
theorem refuse (h : Sound log s) (failure : φ) :
    Sound (log ++ [.refused s.next failure]) { s with next := s.next + 1 } := by
  have hsett : settled (log ++ [(.refused s.next failure)]) =
      settled log ++ [s.next] := settled_concat log _
  have hnew : s.next ∉ settled log := fun hn =>
    absurd ((h.made _).mpr (.inl hn)) (Nat.lt_irrefl _)
  constructor
  · rw [hsett, ← concat_eq_append, nodup_concat]
    exact ⟨hnew, h.nodup⟩
  · intro n
    rw [hsett, mem_append, mem_singleton]
    rw [Nat.lt_succ_iff_lt_or_eq, h.made]
    tauto
  · intro id n hpend
    rw [hsett, mem_append, mem_singleton]
    rintro (hn | rfl)
    · exact h.waits hpend hn
    · exact absurd ((h.made _).mpr (.inr ⟨id, hpend⟩)) (Nat.lt_irrefl _)
  · exact h.unique
  · exact h.disjoint
  · exact fun hpend => (h.sent hpend).imp fun _ => mem_append_left _

theorem step (h : Sound log s) (hstep : Step carried s e t) : Sound (log ++ [e]) t := by
  cases hstep with
  | issued content _ hpend hret => exact h.issue hpend hret content
  | refused failure => exact h.refuse failure
  | answered _ _ hpend =>
    exact h.release hpend rfl (Set.subset_insert ..) s.isOpen
  | orphan _ hsub _ => exact h.keep rfl hsub s.isOpen
  | abandoned _ hpend => exact h.release hpend rfl subset_rfl s.isOpen
  | dropped _ hpend => exact h.release hpend rfl (Set.subset_insert ..) false
  | closed _ => exact h.keep rfl (Set.empty_subset _) false

theorem steps (h : Steps carried Ledger.initial log s) : Sound log s := by
  induction h with
  | nil => exact initial
  | snoc _ hstep ih => exact ih.step hstep

end Sound

/-! ## Replies -/

/-- A reply settles a request only if it carries the id of the request, which went out before and
is not settled yet. -/
theorem Ledger.Steps.answered_waits {before after : List (Entry ι ρ μ φ)}
    (h : Steps carried Ledger.initial (before ++ .answered n m :: after) s) :
    ∃ id content, carried m = some id ∧ .issued n id content ∈ before ∧ n ∉ settled before := by
  obtain ⟨t, v, hsteps, hstep⟩ := h.before
  have hsound := Sound.steps hsteps
  cases hstep with
  | answered _ hid hpend =>
    obtain ⟨content, hmem⟩ := hsound.sent hpend
    exact ⟨_, content, hid, hmem, hsound.waits hpend⟩

/-- Once the session is over every request is settled. -/
theorem Ledger.Steps.mem_settled (h : Steps carried Ledger.initial log s)
    (hcl : ∀ id, s.pending id = none) : n < s.next ↔ n ∈ settled log := by
  rw [(Sound.steps h).made]
  constructor
  · rintro (hn | ⟨_, hid⟩)
    · exact hn
    · rw [hcl] at hid
      cases hid
  · exact .inl

namespace Guarded

theorem issue (h : Guarded log source s) {id : ι} (hpend : s.pending id = none)
    (hret : id ∉ s.retired) (content : ρ) : Guarded (log ++ [.issued s.next id content]) source
      { s with next := s.next + 1, pending := update s.pending id (some s.next) } := by
  have hfree : ∀ {n}, ¬ Outstanding log source n id := by
    intro n hn
    rcases h.kept hn with hn | hn
    · rw [hpend] at hn
      cases hn
    · exact hret hn
  constructor
  · intro n id' hn
    rcases hn.cases with ⟨_, heq⟩ | hn
    · cases heq
      exact .inl (update_self ..)
    · have hid : id' ≠ id := fun heq => hfree (heq ▸ hn)
      rcases h.kept hn with hn | hn
      · exact .inl ((update_of_ne hid ..).trans hn)
      · exact .inr hn
  · intro n n' id' hn hn'
    rcases hn.cases with ⟨content', heq⟩ | hn <;> rcases hn'.cases with ⟨_, heq'⟩ | hn'
    · cases heq
      cases heq'
      rfl
    · cases heq
      exact absurd hn' hfree
    · cases heq'
      exact absurd hn hfree
    · exact h.unique hn hn'

theorem step (h : s.isOpen = true → Guarded log source s) (hstep : Step carried s e t)
    (hserv : Serves carried wire (log ++ [e]) source) (hwire : Wired wire (log ++ [e]))
    (hopen : t.isOpen = true) : Guarded (log ++ [e]) source t := by
  -- the request that is answered is outstanding no more, and no other one has its id
  have hother : ∀ {m id' n'}, e.reply = some m → s.isOpen = true →
      Outstanding (log ++ [e]) source n' id' → Outstanding log source n' id' →
      carried m ≠ some id' := by
    intro m id' n' he hsopen hn' hold hid'
    obtain ⟨id, hid, hsrc⟩ := source_outstanding hserv hwire he
    obtain rfl : id' = id := Option.some.inj (hid'.symm.trans hid)
    exact hn'.2 _ m (replyAt_last he) ((h hsopen).unique hsrc hold)
  cases hstep with
  | issued content hsopen hpend hret => exact (h hsopen).issue hpend hret content
  | refused _ => exact (h hopen).keep nofun fun _ _ hkept => hkept
  | answered hsopen hid _ =>
    refine (h hsopen).keep nofun fun hn hold hkept => ?_
    have hne := hother rfl hsopen hn hold
    rcases hkept with hkept | hkept
    · refine .inl (Sound.release_eq_some.mpr ⟨?_, hkept⟩)
      rintro rfl
      exact hne hid
    · exact .inr hkept
  | orphan hsopen _ hkeep =>
    refine (h hsopen).keep nofun fun hn hold hkept => ?_
    rcases hkept with hkept | hkept
    · exact .inl hkept
    · exact .inr (hkeep _ hkept (hother rfl hsopen hn hold))
  | @abandoned id n failure hpend =>
    refine (h hopen).keep nofun fun {n' id'} _ _ hkept => ?_
    by_cases hid : id' = id
    · exact .inr (.inl hid)
    · rcases hkept with hkept | hkept
      · exact .inl (Sound.release_eq_some.mpr ⟨hid, hkept⟩)
      · exact .inr (.inr hkept)
  | dropped => cases hopen
  | closed => cases hopen

theorem steps (h : Steps carried Ledger.initial log s) (hserv : Serves carried wire log source)
    (hwire : Wired wire log) (hopen : s.isOpen = true) : Guarded log source s := by
  induction h with
  | nil =>
    constructor
    · rintro n _ ⟨⟨_, hmem⟩, -⟩
      cases hmem
    · rintro n - _ ⟨⟨_, hmem⟩, -⟩
      cases hmem
  | snoc _ hstep ih =>
    exact step (ih hserv.of_append hwire.of_append) hstep hserv hwire hopen

end Guarded

/-- With a peer that answers every request at most once and under its id, a reply settles the
request that it is the reply to. -/
theorem Ledger.Steps.answered_source (h : Steps carried Ledger.initial log s)
    (hserv : Serves carried wire log source) (hwire : Wired wire log)
    (hk : log[k]? = some (.answered n m)) : n = source k := by
  induction h with
  | nil => cases hk
  | @snoc log t u e hsteps hstep ih =>
    rcases Nat.lt_or_ge k log.length with hlt | _
    · rw [getElem?_append_left hlt] at hk
      exact ih hserv.of_append hwire.of_append hk
    · have hlt := (List.getElem?_eq_some_iff.mp hk).1
      rw [length_append, length_singleton] at hlt
      obtain rfl : k = log.length := by omega
      rw [getElem?_concat_length] at hk
      cases hk
      obtain ⟨id, hid, hsrc⟩ := Guarded.source_outstanding hserv hwire rfl
      cases hstep with
      | answered hopen hid' hpend =>
        cases hid.symm.trans hid'
        have hguar := Guarded.steps hsteps hserv.of_append hwire.of_append hopen
        rcases hguar.kept hsrc with hn | hn
        · exact Option.some.inj (hpend.symm.trans hn)
        · rw [(Sound.steps hsteps).disjoint hn] at hpend
          cases hpend

end Correlation
