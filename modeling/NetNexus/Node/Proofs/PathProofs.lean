import NetNexus.Node.Path

/-!
# Where paths lead

Normalising a path does not change the place to which it leads.
-/

namespace Node.Path

open List

/-! ## Segments -/

/-- What can stand between slashes and leads somewhere. -/
structure IsName (segment : Text) : Prop where
  ne_nil : segment ≠ []
  not_mem : '/' ∉ segment
  ne_dot : segment ≠ ['.']

theorem isName_parent : IsName parent := ⟨by decide, by decide, by decide⟩

theorem segments_append_slash (a b : Text) :
    segments (a ++ '/' :: b) = segments a ++ segments b := by
  have hsplit : (a ++ '/' :: b).splitOn '/' = a.splitOn '/' ++ b.splitOn '/' :=
    splitOnP_append_cons a b (beq_self_eq_true '/')
  unfold segments
  rw [hsplit, filter_append]

theorem segments_nil : segments [] = [] := rfl

variable (path : Text)

theorem segments_append_singleton_slash : segments (path ++ ['/']) = segments path := by
  rw [segments_append_slash, segments_nil, List.append_nil]

theorem splitOn_of_not_mem {path : Text} (h : '/' ∉ path) : path.splitOn '/' = [path] := by
  have hjoin : ['/'].intercalate [path] = path := by simp
  have hsplit := @List.splitOn_intercalate Char [path] _ _ '/' (by simpa using h) (by simp)
  rwa [hjoin] at hsplit

variable {name : Text} {names : List Text} {done : List Text}

theorem segments_of_isName (h : IsName name) : segments name = [name] := by
  unfold segments
  rw [splitOn_of_not_mem h.not_mem]
  simp [h.ne_nil, h.ne_dot]

theorem isName_of_mem_segments {path segment : Text} (h : segment ∈ segments path) :
    IsName segment := by
  induction hlen : path.length using Nat.strong_induction_on generalizing path with
  | h n ih =>
    by_cases hslash : '/' ∈ path
    · obtain ⟨a, b, rfl⟩ := append_of_mem hslash
      rw [segments_append_slash] at h
      simp only [length_append, length_cons] at hlen
      rcases mem_append.mp h with ha | hb
      · exact ih a.length (by omega) ha rfl
      · exact ih b.length (by omega) hb rfl
    · unfold segments at h
      rw [splitOn_of_not_mem hslash, mem_filter, mem_singleton] at h
      obtain ⟨rfl, hkept⟩ := h
      simp only [Bool.and_eq_true, decide_eq_true_eq] at hkept
      exact ⟨hkept.1, hslash, hkept.2⟩

theorem joinSegments_cons_cons (a b : Text) (rest : List Text) :
    joinSegments (a :: b :: rest) = a ++ '/' :: joinSegments (b :: rest) := by
  unfold joinSegments
  simp

theorem segments_joinSegments (h : ∀ name ∈ names, IsName name) :
    segments (joinSegments names) = names := by
  induction names with
  | nil => rfl
  | cons a rest ih =>
    have ha := h a mem_cons_self
    have hrest : ∀ name ∈ rest, IsName name := fun name hname => h name (mem_cons_of_mem a hname)
    cases rest with
    | nil => simpa [joinSegments] using segments_of_isName ha
    | cons b _ =>
      rw [joinSegments_cons_cons, segments_append_slash, segments_of_isName ha, ih hrest]
      rfl

theorem segments_join (parts : List Text) :
    segments (joinSegments (parts.filter (· ≠ []))) = parts.flatMap segments := by
  induction parts with
  | nil => rfl
  | cons part parts ih =>
    rw [flatMap_cons, ← ih]
    by_cases hempty : part = []
    · rw [hempty]
      rfl
    · rw [filter_cons_of_pos (by simpa using hempty)]
      cases hrest : parts.filter _ with
      | nil => simp [joinSegments, segments_nil]
      | cons b _ => rw [joinSegments_cons_cons, segments_append_slash]

/-! ## Normal forms -/

theorem isName_push {allowAboveRoot : Bool} {segment : Text} (hdone : ∀ name ∈ done, IsName name)
    (hseg : IsName segment) : ∀ name ∈ push allowAboveRoot done segment, IsName name := by
  have happ : ∀ last, IsName last → ∀ name ∈ done ++ [last], IsName name := by
    intro last hlast
    exact forall_mem_append.mpr ⟨hdone, forall_mem_singleton.mpr hlast⟩
  unfold push
  split
  · split
    · split
      · split
        · exact happ parent isName_parent
        · exact hdone
      · exact fun name hname => hdone name ((dropLast_sublist _).subset hname)
    · split
      · intro name hname
        exact mem_singleton.mp hname ▸ isName_parent
      · exact nofun
  · exact happ segment hseg

theorem isName_normalizeSegments (allowAboveRoot : Bool) (path : Text) :
    ∀ name ∈ normalizeSegments allowAboveRoot path, IsName name := by
  have hnames : ∀ segment ∈ segments path, IsName segment := fun _ => isName_of_mem_segments
  unfold normalizeSegments
  revert hnames
  induction segments path using List.reverseRecOn with
  | nil => exact nofun
  | append_singleton _ last ih =>
    intro hnames
    rw [foldl_append]
    exact isName_push (ih fun segment hmem => hnames segment (mem_append_left _ hmem))
      (hnames last (mem_append_right _ (mem_singleton_self last)))

theorem walk_append (place a b : List Text) : walk place (a ++ b) = walk (walk place a) b :=
  foldl_append ..

theorem walk_normalizeSegments (place : List Text) (path : Text) :
    walk place (normalizeSegments true path) = walk place (segments path) := by
  unfold normalizeSegments
  induction segments path using List.reverseRecOn with
  | nil => rfl
  | append_singleton rest last ih =>
    rw [foldl_append, walk_append, ← ih]
    generalize List.foldl _ [] rest = done
    show walk place (push true done last) = walkStep _ last
    unfold push
    by_cases hpar : last = parent
    · rw [if_pos hpar]
      cases done using List.reverseRecOn with
      | nil => rw [hpar]; rfl
      | append_singleton _ top =>
        rw [getLast?_append_of_ne_nil _ (by simp)]
        simp only [getLast?_singleton, ↓reduceIte]
        split
        · rw [hpar, walk_append]
          rfl
        · rename_i htop
          rw [dropLast_concat, walk_append, hpar]
          show _ = walkStep (walkStep _ top) parent
          unfold walkStep
          rw [if_neg htop, if_pos rfl, dropLast_concat]
    · rw [if_neg hpar, walk_append]
      rfl

/-- Nothing leads up in a place of the tree. -/
theorem parent_not_mem_walk {place segments : List Text} (h : parent ∉ place) :
    parent ∉ walk place segments := by
  induction segments generalizing place with
  | nil => exact h
  | cons _ _ ih =>
    refine ih ?_
    unfold walkStep
    split
    · exact fun hmem => h ((dropLast_sublist _).subset hmem)
    · rename_i hne
      rw [mem_append, not_or]
      exact ⟨h, fun hmem => hne (mem_singleton.mp hmem).symm⟩

theorem push_false (h : parent ∉ done) (segment : Text) :
    push false done segment = walkStep done segment := by
  unfold push walkStep
  split
  · cases hlast : done.getLast? with
    | none => rw [getLast?_eq_none_iff.mp hlast]; rfl
    | some last =>
      have hne : last ≠ parent := fun heq => h (heq ▸ mem_of_getLast? hlast)
      dsimp only
      rw [if_neg hne]
  · rfl

theorem foldl_push_false (h : parent ∉ done) (segments : List Text) :
    segments.foldl (push false) done = walk done segments := by
  induction segments generalizing done with
  | nil => rfl
  | cons segment _ ih =>
    have hnext : parent ∉ walkStep done segment := @parent_not_mem_walk done [segment] h
    rw [foldl_cons, push_false h, ih hnext]
    rfl

theorem normalizeSegments_false : normalizeSegments false path = walk [] (segments path) :=
  foldl_push_false not_mem_nil _

theorem walk_of_not_mem {place segments : List Text} (h : parent ∉ segments) :
    walk place segments = place ++ segments := by
  induction segments generalizing place with
  | nil => exact (List.append_nil place).symm
  | cons _ rest ih =>
    rw [mem_cons, not_or] at h
    show walk _ rest = _
    rw [ih h.2, walkStep, if_neg fun heq => h.1 heq.symm, append_assoc]
    rfl

theorem head?_joinSegments_cons (h : name ≠ []) (rest : List Text) :
    (joinSegments (name :: rest)).head? = name.head? := by
  cases name with
  | nil => exact absurd rfl h
  | cons c _ =>
    cases rest with
    | nil => simp [joinSegments]
    | cons b _ => rw [joinSegments_cons_cons]; rfl

theorem isAbsolute_joinSegments (h : ∀ name ∈ names, IsName name) :
    isAbsolute (joinSegments names) = false := by
  cases names with
  | nil => rfl
  | cons name _ =>
    have hname := h name mem_cons_self
    unfold isAbsolute
    rw [head?_joinSegments_cons hname.ne_nil, decide_eq_false_iff_not]
    exact fun hhead => hname.not_mem (mem_of_mem_head? hhead)

/-- What `normalize` puts before the segments. -/
def lead (absolute : Bool) : Text := if absolute then ['/'] else []

/-- A normalised path: one that leads nowhere, or the lead, the segments and perhaps a slash. -/
theorem normalize_cases :
    (normalizeSegments (!isAbsolute path) path = [] ∧
      normalize path ∈ (if isAbsolute path then [['/']] else [['.'], ['.', '/']])) ∨
    (normalizeSegments (!isAbsolute path) path ≠ [] ∧
      ∃ slash, (slash = [] ∨ slash = ['/']) ∧ normalize path =
        lead (isAbsolute path) ++ joinSegments (normalizeSegments (!isAbsolute path) path) ++
          slash) := by
  by_cases hrest : normalizeSegments (!isAbsolute path) path = []
  · refine Or.inl ⟨hrest, ?_⟩
    by_cases hpath : path = []
    · subst hpath
      decide
    · unfold normalize
      dsimp only
      split
      · exact mem_singleton_self _
      · split <;> simp
  · have hpath : path ≠ [] := by
      intro heq
      subst heq
      exact hrest rfl
    refine Or.inr ⟨hrest, if path.getLast? = some '/' then ['/'] else [], ?_, ?_⟩
    · split <;> simp
    · unfold normalize lead
      simp [hpath, hrest]

variable (absolute : Bool)

theorem segments_lead_append (path : Text) : segments (lead absolute ++ path) = segments path := by
  cases absolute with
  | false => rfl
  | true => exact segments_append_slash [] path

theorem isAbsolute_lead_append {absolute : Bool} {path : Text} (h : isAbsolute path = false) :
    isAbsolute (lead absolute ++ path) = absolute := by
  cases absolute with
  | false => exact h
  | true => rfl

theorem segments_normalize :
    segments (normalize path) = normalizeSegments (!isAbsolute path) path := by
  rcases normalize_cases path with ⟨hrest, hmem⟩ | ⟨_, _, hslash, heq⟩
  · rw [hrest]
    split at hmem
    · rw [mem_singleton.mp hmem]
      decide
    · simp only [mem_cons, not_mem_nil, or_false] at hmem
      rcases hmem with heq | heq <;> rw [heq] <;> decide
  · have hsegs := segments_joinSegments (isName_normalizeSegments (!isAbsolute path) path)
    rw [heq, append_assoc, segments_lead_append]
    rcases hslash with rfl | rfl
    · rw [List.append_nil, hsegs]
    · rw [segments_append_singleton_slash, hsegs]

theorem isAbsolute_normalize : isAbsolute (normalize path) = isAbsolute path := by
  rcases normalize_cases path with ⟨_, hmem⟩ | ⟨hrest, _, _, heq⟩
  · split at hmem
    · rename_i habs
      rw [mem_singleton.mp hmem, habs]
      rfl
    · rename_i habs
      simp only [mem_cons, not_mem_nil, or_false] at hmem
      rw [Bool.not_eq_true] at habs
      rcases hmem with heq | heq <;> rw [heq, habs] <;> rfl
  · rw [heq, append_assoc]
    refine isAbsolute_lead_append ?_
    have hnames := isName_normalizeSegments (!isAbsolute path) path
    cases hcons : normalizeSegments _ path with
    | nil => exact absurd hcons hrest
    | cons name _ =>
      rw [hcons] at hnames
      have hname := hnames name mem_cons_self
      have hfirst := isAbsolute_joinSegments hnames
      unfold isAbsolute at hfirst ⊢
      rw [head?_append, head?_joinSegments_cons hname.ne_nil] at *
      cases name with
      | nil => exact absurd rfl hname.ne_nil
      | cons c _ => exact hfirst

theorem normalize_ne_nil : normalize path ≠ [] := by
  intro heq
  rcases normalize_cases path with ⟨_, hmem⟩ | ⟨hrest, _⟩
  · rw [heq] at hmem
    split at hmem <;> simp at hmem
  · exact hrest (by rw [← segments_normalize, heq, segments_nil])

def start (cwd : Text) (absolute : Bool) : List Text :=
  if absolute then [] else walk [] (segments cwd)

theorem walk_normalizeSegments_not (cwd path : Text) :
    walk (start cwd (isAbsolute path)) (normalizeSegments (!isAbsolute path) path) =
      walk (start cwd (isAbsolute path)) (segments path) := by
  cases isAbsolute path with
  | false => exact walk_normalizeSegments _ path
  | true =>
    show walk _ (normalizeSegments false path) = _
    rw [normalizeSegments_false, walk_of_not_mem (parent_not_mem_walk not_mem_nil)]
    exact nil_append _

theorem parent_not_mem_place (cwd path : Text) : parent ∉ place cwd path := by
  refine parent_not_mem_walk ?_
  split
  · exact not_mem_nil
  · exact parent_not_mem_walk not_mem_nil

theorem place_normalize (cwd path : Text) : place cwd (normalize path) = place cwd path := by
  unfold place
  rw [segments_normalize, isAbsolute_normalize]
  exact walk_normalizeSegments_not cwd path

/-- A joined path leads where its parts do, one after the other. -/
theorem place_join (cwd : Text) {root : Text} (hroot : root ≠ []) (parts : List Text) :
    place cwd (join (root :: parts)) = walk (place cwd root) (parts.flatMap segments) := by
  unfold join
  rw [place_normalize]
  unfold place
  rw [segments_join, flatMap_cons, walk_append]
  have habs : isAbsolute (joinSegments ((root :: parts).filter (· ≠ []))) = isAbsolute root := by
    unfold isAbsolute
    rw [filter_cons_of_pos (by simpa using hroot), head?_joinSegments_cons hroot]
  rw [habs]

/-! ## Directories -/

theorem joinSegments_concat (h : names ≠ []) (last : Text) :
    joinSegments (names ++ [last]) = joinSegments names ++ '/' :: last := by
  induction names with
  | nil => exact absurd rfl h
  | cons a rest ih =>
    cases rest with
    | nil => simp [joinSegments]
    | cons b rest =>
      rw [cons_append, cons_append, joinSegments_cons_cons, joinSegments_cons_cons,
        ← cons_append, ih (cons_ne_nil b rest), append_assoc]
      rfl

theorem dropWhile_reverse_name (h : IsName name) (before : Text) :
    (before ++ name).reverse.dropWhile (· ≠ '/') = before.reverse.dropWhile (· ≠ '/') := by
  rw [reverse_append, dropWhile_append_of_pos]
  intro c hc
  rw [mem_reverse] at hc
  exact decide_eq_true fun heq => h.not_mem (heq ▸ hc)

theorem rdropWhile_name {name slash : Text} (h : IsName name) (before : Text)
    (hslash : slash = [] ∨ slash = ['/']) :
    (before ++ name ++ slash).rdropWhile (· = '/') = before ++ name := by
  have hbare : (before ++ name).rdropWhile (· = '/') = before ++ name := by
    rw [rdropWhile_eq_self_iff]
    intro hne
    rw [getLast_append_of_ne_nil _ h.ne_nil, decide_eq_true_eq]
    exact fun hlast => h.not_mem (hlast ▸ getLast_mem h.ne_nil)
  rcases hslash with rfl | rfl
  · rw [List.append_nil, hbare]
  · rw [rdropWhile_concat_pos _ _ _ (by decide), hbare]

theorem dirname_of_name {slash name : Text} (hslash : slash = [] ∨ slash = ['/'])
    (h : IsName name) :
    dirname (lead absolute ++ name ++ slash) = if absolute then ['/'] else ['.'] := by
  unfold dirname
  rw [rdropWhile_name h _ hslash, dropWhile_reverse_name h]
  cases absolute with
  | true => rfl
  | false =>
    have habs : isAbsolute (name ++ slash) = false := by
      unfold isAbsolute
      rw [decide_eq_false_iff_not]
      cases name with
      | nil => exact absurd rfl h.ne_nil
      | cons c _ => exact fun hhead => h.not_mem (by simp_all)
    show (if isAbsolute (name ++ slash) = true then _ else _) = _
    rw [habs]

theorem dirname_of_concat {slash name : Text}
    (hslash : slash = [] ∨ slash = ['/']) (hne : names ≠ []) (hnames : ∀ name ∈ names, IsName name)
    (h : IsName name) : dirname (lead absolute ++ joinSegments (names ++ [name]) ++ slash) =
      lead absolute ++ joinSegments names := by
  have hassoc : lead absolute ++ joinSegments (names ++ [name]) ++ slash =
      (lead absolute ++ joinSegments names ++ ['/']) ++ name ++ slash := by
    rw [joinSegments_concat hne]
    simp
  unfold dirname
  rw [hassoc, rdropWhile_name h _ hslash, dropWhile_reverse_name h]
  generalize hbef : lead absolute ++ joinSegments names = before
  have hsegs : segments before = names := by
    rw [← hbef, segments_lead_append, segments_joinSegments hnames]
  rw [reverse_append, reverse_singleton, singleton_append, dropWhile_cons_of_neg (by decide)]
  split
  · contradiction
  · rename_i heq
    rw [List.cons.injEq] at heq
    rw [reverse_eq_nil_iff.mp heq.2] at hsegs
    exact absurd hsegs.symm hne
  · rename_i heq
    rw [List.cons.injEq, reverse_eq_iff] at heq
    rw [heq.2] at hsegs
    exact absurd hsegs.symm hne
  · rename_i heq
    rw [List.cons.injEq] at heq
    rw [← heq.2, reverse_reverse]

theorem dirname_normalize :
    segments (dirname (normalize path)) = (segments (normalize path)).dropLast ∧
      isAbsolute (dirname (normalize path)) = isAbsolute (normalize path) := by
  rw [segments_normalize, isAbsolute_normalize]
  have hnames := isName_normalizeSegments (!isAbsolute path) path
  rcases normalize_cases path with ⟨hrest, hmem⟩ | ⟨hrest, _, hslash, heq⟩
  · rw [hrest]
    split at hmem
    · rename_i habs
      rw [mem_singleton.mp hmem, habs]
      decide
    · rename_i habs
      rw [Bool.not_eq_true] at habs
      simp only [mem_cons, not_mem_nil, or_false] at hmem
      rcases hmem with heq | heq <;> rw [heq, habs] <;> decide
  · rw [heq]
    generalize normalizeSegments _ path = names at hrest hnames
    cases names using List.reverseRecOn with
    | nil => exact absurd rfl hrest
    | append_singleton names name =>
      have hname := hnames name (mem_append_right _ (mem_singleton_self name))
      have hinit : ∀ name ∈ names, IsName name :=
        fun other hmem => hnames other (mem_append_left _ hmem)
      rw [dropLast_concat]
      by_cases hone : names = []
      · subst hone
        have hdir := dirname_of_name (isAbsolute path) hslash hname
        have hjoin : joinSegments ([] ++ [name]) = name := by simp [joinSegments]
        rw [hjoin, hdir]
        cases isAbsolute path <;> decide
      · rw [dirname_of_concat _ hslash hone hinit hname, segments_lead_append,
          segments_joinSegments hinit, isAbsolute_lead_append (isAbsolute_joinSegments hinit)]
        exact ⟨rfl, rfl⟩

theorem isPrefix_of_walkStep {root place : List Text} {segment : Text}
    (h : root <+: walkStep place segment) (hne : walkStep place segment ≠ root) :
    root <+: place := by
  unfold walkStep at h hne
  split at h
  · exact h.trans (List.dropLast_prefix place)
  · rename_i hpar
    rw [if_neg hpar] at hne
    rcases prefix_concat_iff.mp h with heq | hpre
    · exact absurd heq.symm hne
    · exact hpre

theorem within_dirname {cwd root path : Text} (h : Within cwd root (normalize path))
    (hne : place cwd (normalize path) ≠ place cwd root) :
    Within cwd root (dirname (normalize path)) := by
  obtain ⟨hsegs, habs⟩ := dirname_normalize path
  unfold Within at h ⊢
  unfold place at h hne ⊢
  rw [hsegs, habs]
  generalize segments (normalize path) = names at h hne
  cases names using List.reverseRecOn with
  | nil => exact h
  | append_singleton _ _ =>
    rw [dropLast_concat]
    rw [walk_append] at h hne
    exact isPrefix_of_walkStep h hne

/-! ## Resolved paths -/

theorem isName_walk {place segments : List Text} (hplace : ∀ name ∈ place, IsName name)
    (h : ∀ segment ∈ segments, IsName segment) : ∀ name ∈ walk place segments, IsName name := by
  induction segments generalizing place with
  | nil => exact hplace
  | cons segment _ ih =>
    refine ih ?_ fun other hmem => h other (mem_cons_of_mem segment hmem)
    unfold walkStep
    split
    · exact fun name hname => hplace name ((dropLast_sublist _).subset hname)
    · rw [forall_mem_append, forall_mem_singleton]
      exact ⟨hplace, h segment mem_cons_self⟩

theorem segments_rooted :
    segments ('/' :: joinSegments (walk [] (segments path))) = walk [] (segments path) :=
      segments_joinSegments
    (isName_walk nofun fun _ => isName_of_mem_segments)

/-- The text of a place never leads up. -/
theorem walk_rooted (place : List Text) (path : Text) :
    walk place (segments ('/' :: joinSegments (walk [] (segments path)))) =
      place ++ walk [] (segments path) := by
  rw [segments_rooted, walk_of_not_mem (parent_not_mem_walk not_mem_nil)]

theorem resolve_eq (cwd : Text) (parts : List Text) :
    resolve cwd parts = '/' :: joinSegments (walk [] (segments (parts.foldl resolveStep cwd))) := by
  unfold resolve
  rw [normalizeSegments_false]

theorem segments_resolve_singleton (cwd path : Text) :
    segments (resolve cwd [path]) = place cwd path := by
  rw [resolve_eq, segments_rooted]
  show walk _ (segments (resolveStep cwd path)) = _
  unfold resolveStep place
  by_cases hempty : path = []
  · rw [hempty]
    rfl
  · rw [if_neg hempty]
    split
    · rfl
    · rw [segments_append_slash, walk_append]

theorem commonLength_le (a b : List Text) : commonLength a b ≤ a.length := by
  induction a generalizing b with
  | nil => exact Nat.zero_le _
  | cons x a ih =>
    cases b with
    | nil => exact Nat.zero_le _
    | cons y b =>
      unfold commonLength
      split
      · exact Nat.succ_le_succ (ih b)
      · exact Nat.zero_le _

theorem isPrefix_of_commonLength {a b : List Text} (h : commonLength a b = a.length) : a <+: b := by
  induction a generalizing b with
  | nil => exact nil_prefix
  | cons x a ih =>
    cases b with
    | nil => exact absurd h (by simp [commonLength])
    | cons y b =>
      unfold commonLength at h
      split at h
      · rename_i heq
        rw [length_cons, Nat.add_right_cancel_iff] at h
        exact heq ▸ cons_prefix_cons.mpr ⟨rfl, ih h⟩
      · exact absurd h (by simp)

/-- A relative path that does not start with two dots leads to the source or below it. -/
theorem isPrefix_of_relative {source target : Text} (h : ¬ parent <+: relative source target) :
    walk [] (segments source) <+: walk [] (segments target) := by
  unfold relative at h
  simp only [normalizeSegments_false] at h
  generalize walk [] (segments source) = a at h
  generalize walk [] (segments target) = b at h
  by_contra hpre
  have hlt : commonLength a b < a.length :=
    lt_of_le_of_ne (commonLength_le a b) fun heq => hpre (isPrefix_of_commonLength heq)
  obtain ⟨n, _⟩ := Nat.exists_eq_add_of_lt hlt
  refine h ?_
  have hups : a.length - commonLength a b = n + 1 := by omega
  rw [hups, replicate_succ, cons_append]
  cases hrest : List.replicate n parent ++ b.drop _ with
  | nil => simp [joinSegments]
  | cons _ _ =>
    exact prefix_append ..

end Node.Path
