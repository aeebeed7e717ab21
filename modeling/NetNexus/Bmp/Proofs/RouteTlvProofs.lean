import Mathlib.Algebra.Order.BigOperators.Group.List
import Mathlib.Algebra.Order.Ring.Nat
import Mathlib.Data.List.Induction
import Mathlib.Data.List.Nodup
import NetNexus.Bmp.RouteTlv

/-!
# Which TLVs an NLRI gets
-/

namespace Bmp

open List

section

variable {τ ε ν : Type} [DecidableEq ν]

/-- Copies of the items that pass a test, at least one of each, are these items if and only if there
is one copy of each. -/
theorem flatMap_replicate_eq_iff {m : τ → ℕ} {t : τ → Bool} {l : List τ}
    (h : ∀ x ∈ l, t x = true ↔ 0 < m x) (e : τ → ε) :
    l.flatMap (fun x => replicate (m x) (e x)) = (l.filter t).map e ↔ ∀ x ∈ l, m x ≤ 1 := by
  have hfilt : (l.filter t).map e = l.flatMap fun x => replicate (t x).toNat (e x) := by
    clear h
    induction l with
    | nil => rfl
    | cons x l ih => cases hx : t x <;> simp [hx, ih]
  have hle : ∀ x ∈ l, (t x).toNat ≤ m x := by
    intro x hx
    cases ht : t x with
    | false => exact Nat.zero_le _
    | true => exact (h x hx).mp ht
  rw [hfilt]
  constructor
  · intro heq x hx
    by_contra hmore
    have hlt := sum_lt_sum _ m hle ⟨x, hx, by
      have := (t x).toNat_le
      omega⟩
    have hlen := congrArg length heq
    simp only [length_flatMap, length_replicate] at hlen
    exact hlt.ne' hlen
  · intro hone
    refine flatMap_congr fun x hx => congrArg (replicate · (e x)) ?_
    have hpos := h x hx
    have hle := hone x hx
    cases ht : t x with
    | false => simpa [ht] using hpos
    | true => exact le_antisymm hle (hpos.mp ht)

/-- Assigning entries to positions appends them to what the NLRI there have. -/
theorem getD_foldl_assign (nlriList : List ν) (nlri : ν) (e : ℕ → ε) (indexes : List ℕ)
    (assignments : ν → Option (List ε)) :
    (indexes.foldl (fun assignments index => assign nlriList assignments index (e index))
      assignments nlri).getD [] = (assignments nlri).getD [] ++
        (indexes.filter fun index => nlriList[index - 1]? = some nlri).map e := by
  induction indexes generalizing assignments with
  | nil => simp
  | cons index _ ih =>
    rw [foldl_cons, ih, assign]
    cases hat : nlriList[index - 1]? with
    | none => simp [hat]
    | some other =>
      by_cases hother : other = nlri
      · subst hother
        simp [hat]
      · simp [hat, hother, Function.update_of_ne (Ne.symm hother)]

end

/-! ## Positions -/

section Positions

variable (types : TlvTypes) (routeTlvs : List Tlv) {n position : ℕ}

/-- What the last definition of a group lists. -/
def lastGroup (rawIndex : ℕ) : Option (List ℕ) :=
  (routeTlvs.reverse.find? fun tlv => tlv.isRouteMonitoringGroupTlv types && tlv.group &&
    tlv.rawIndex == some rawIndex).map fun tlv => groupIndexes tlv.value

theorem buildRouteMonitoringGroupMap_eq :
    buildRouteMonitoringGroupMap types routeTlvs = lastGroup types routeTlvs := by
  induction routeTlvs using reverseRecOn with
  | nil => rfl
  | append_singleton routeTlvs tlv ih =>
    funext rawIndex
    have hstep : buildRouteMonitoringGroupMap types (routeTlvs ++ [tlv]) =
        defineGroup types (lastGroup types routeTlvs) tlv := by
      rw [← ih]
      exact foldl_append
    rw [hstep, defineGroup, lastGroup, reverse_concat, find?_cons]
    cases hraw : tlv.rawIndex with
    | none => simp [lastGroup]
    | some raw =>
      by_cases hgroup : (tlv.isRouteMonitoringGroupTlv types && tlv.group) = true
      · by_cases hi : raw = rawIndex
        · simp [Option.filter, hgroup, hi]
        · simp [Option.filter, hgroup, beq_eq_false_iff_ne.mpr hi,
            Function.update_of_ne (Ne.symm hi), lastGroup]
      · simp only [hgroup]
        rfl

/-- A TLV is meant for a position. -/
def targets (tlv : Tlv) (position : ℕ) : Bool :=
  if tlv.group then ((tlv.rawIndex.bind (lastGroup types routeTlvs)).getD []).contains position
  else tlv.index == some 0 || tlv.index == some position

theorem count_resolveIndexedTlvRouteIndexes (tlv : Tlv) (hpos : 1 ≤ position) (hle : position ≤ n) :
    (resolveIndexedTlvRouteIndexes tlv (lastGroup types routeTlvs) n).count position =
      if tlv.group then ((tlv.rawIndex.bind (lastGroup types routeTlvs)).getD []).count position
      else if targets types routeTlvs tlv position then 1 else 0 := by
  unfold resolveIndexedTlvRouteIndexes targets
  rw [if_neg (by omega)]
  cases hraw : tlv.rawIndex with
  | none => simp [Tlv.index, hraw]
  | some raw =>
    by_cases hgroup : tlv.group = true
    · have hne : raw ≠ 0 := by
        rintro rfl
        simp [Tlv.group, hraw] at hgroup
      simp only [hgroup, Option.some_inj, hne, Bool.not_true, Bool.false_eq_true, false_and,
        or_self, if_false, if_true]
      rw [count_filter (by simp [hpos, hle])]
    · have hindex : tlv.index = some (raw % 0x8000) := by rw [Tlv.index, hraw]; rfl
      rw [if_neg hgroup, if_neg hgroup, if_neg hgroup, hindex]
      by_cases hzero : raw % 0x8000 = 0
      · rw [if_pos (by simp [hgroup, hzero])]
        rw [count_eq_one_of_mem nodup_range' (by simp; omega)]
        simp [hzero]
      · rw [if_neg (by simp [hzero]; rintro rfl; exact hzero rfl)]
        by_cases heq : raw % 0x8000 = position
        · simp [heq, hpos, hle]
        · simp only [Option.toList_some, filter_cons]
          split <;> simp [heq, hzero]

end Positions

/-! ## Assignments -/

section Assignments

variable {ν ε : Type} [DecidableEq ν] (types : TlvTypes) (update : ParsedUpdate ν)
  (routeTlvs : List Tlv) (accepts : Tlv → Bool) (entry : Tlv → ℕ → ε)

/-- Each NLRI has the entries of the TLVs that are meant for its position, and no other has any. -/
structure Exact (assignments : ν → Option (List ε)) : Prop where
  assigned : ∀ i nlri, update.nlriList[i]? = some nlri → (assignments nlri).getD [] =
    (routeTlvs.filter fun tlv => accepts tlv && targets types routeTlvs tlv (i + 1)).map
      (entry · (i + 1))
  other : ∀ nlri ∉ update.nlriList, (assignments nlri).getD [] = []

/-- No group that an accepted TLV names lists a position of the message twice. -/
def Distinct : Prop :=
  ∀ tlv ∈ routeTlvs, accepts tlv → tlv.group →
    ∀ indexes ∈ tlv.rawIndex.bind (lastGroup types routeTlvs),
      ∀ i < update.nlriList.length, indexes.count (i + 1) ≤ 1

/-- The positions to which a TLV goes. -/
def positions (tlv : Tlv) : List ℕ :=
  resolveIndexedTlvRouteIndexes tlv (lastGroup types routeTlvs) update.nlriList.length

theorem getD_buildAssignments (nlri : ν) :
    (buildAssignments types update routeTlvs accepts entry nlri).getD [] =
      (routeTlvs.filter accepts).flatMap fun tlv =>
        ((positions types update routeTlvs tlv).filter fun index =>
          update.nlriList[index - 1]? = some nlri).map (entry tlv) := by
  have hfold : ∀ (tlvs : List Tlv) assignments,
      (tlvs.foldl (fun assignments tlv => (positions types update routeTlvs tlv).foldl
        (fun assignments index => assign update.nlriList assignments index (entry tlv index))
        assignments) assignments nlri).getD [] = (assignments nlri).getD [] ++
          tlvs.flatMap fun tlv => ((positions types update routeTlvs tlv).filter fun index =>
            update.nlriList[index - 1]? = some nlri).map (entry tlv) := by
    intro tlvs
    induction tlvs with
    | nil => simp
    | cons _ _ ih =>
      intro assignments
      rw [foldl_cons, ih, getD_foldl_assign, flatMap_cons, append_assoc]
  rw [buildAssignments, buildRouteMonitoringGroupMap_eq]
  exact hfold ..

theorem filter_positions {i : ℕ} {nlri : ν} (hi : update.nlriList[i]? = some nlri) (tlv : Tlv) :
    ((positions types update routeTlvs tlv).filter fun index =>
        update.nlriList[index - 1]? = some nlri) =
      replicate ((positions types update routeTlvs tlv).count (i + 1)) (i + 1) := by
  rw [← filter_eq]
  refine filter_congr fun index hmem => decide_eq_decide.mpr ?_
  have hpos : 1 ≤ index := by
    unfold positions resolveIndexedTlvRouteIndexes at hmem
    split_ifs at hmem <;> simp_all
  obtain ⟨hlt, -⟩ := List.getElem?_eq_some_iff.mp hi
  constructor
  · intro hat
    have := (getElem?_inj hlt update.nodup).mp (hi.trans hat.symm)
    omega
  · rintro rfl
    exact hi

theorem exact_buildAssignments_iff : Exact types update routeTlvs accepts entry
      (buildAssignments types update routeTlvs accepts entry) ↔
    Distinct types update routeTlvs accepts := by
  have hasgn : ∀ i nlri, update.nlriList[i]? = some nlri →
      ((buildAssignments types update routeTlvs accepts entry nlri).getD [] =
        (routeTlvs.filter fun tlv => accepts tlv && targets types routeTlvs tlv (i + 1)).map
          (entry · (i + 1)) ↔ ∀ tlv ∈ routeTlvs.filter accepts,
            (positions types update routeTlvs tlv).count (i + 1) ≤ 1) := by
    intro i nlri hi
    obtain ⟨hlt, -⟩ := List.getElem?_eq_some_iff.mp hi
    simp only [getD_buildAssignments, filter_positions types update routeTlvs hi, map_replicate]
    rw [show _ =
      fun tlv => targets types routeTlvs tlv _ && accepts tlv from
        funext fun _ => Bool.and_comm .., ← filter_filter]
    refine flatMap_replicate_eq_iff (fun tlv _ => ?_) _
    rw [positions, count_resolveIndexedTlvRouteIndexes types routeTlvs tlv (by omega) hlt]
    by_cases hgroup : tlv.group = true
    · rw [if_pos hgroup, targets, if_pos hgroup, contains_iff_mem, count_pos_iff]
    · rw [if_neg hgroup]
      split <;> simp_all
  have hother : ∀ nlri ∉ update.nlriList,
      (buildAssignments types update routeTlvs accepts entry nlri).getD [] = [] := by
    intro nlri hnot
    rw [getD_buildAssignments, flatMap_eq_nil_iff]
    intro tlv _
    rw [map_eq_nil_iff, filter_eq_nil_iff]
    intro index _ hat
    exact hnot (mem_of_getElem? (of_decide_eq_true hat))
  constructor
  · intro h tlv hmem hacc hgroup indexes hinde i hlt
    have hcount :=
      (hasgn i _ (getElem?_eq_getElem hlt)).mp (h.assigned i _ (getElem?_eq_getElem hlt)) tlv
      (mem_filter.mpr ⟨hmem, hacc⟩)
    rw [positions, count_resolveIndexedTlvRouteIndexes types routeTlvs tlv (by omega) hlt,
      if_pos hgroup, hinde] at hcount
    exact hcount
  · intro h
    refine ⟨fun i nlri hi => (hasgn i nlri hi).mpr fun tlv hmem => ?_, hother⟩
    obtain ⟨hlt, -⟩ := List.getElem?_eq_some_iff.mp hi
    obtain ⟨hmem, hacc⟩ := mem_filter.mp hmem
    rw [positions, count_resolveIndexedTlvRouteIndexes types routeTlvs tlv (by omega) hlt]
    by_cases hgroup : tlv.group = true
    · rw [if_pos hgroup]
      cases hinde : tlv.rawIndex.bind _ with
      | none => exact Nat.zero_le _
      | some indexes => exact h tlv hmem hacc hgroup indexes hinde i hlt
    · rw [if_neg hgroup]
      split <;> omega

/-- Both builders give each NLRI each TLV that is meant for it once if and only if no group that is
used lists a position twice. -/
theorem assignments_exact_iff :
    (Exact types update routeTlvs (Tlv.isPathMarkingTlv types)
      (fun tlv _ => decodePathMarkingTlv tlv)
        (buildPathMarkingAssignments types update routeTlvs) ↔
      Distinct types update routeTlvs (Tlv.isPathMarkingTlv types)) ∧
    (Exact types update routeTlvs (Tlv.isRouteTlvVisibleOnRoute types) Prod.mk
        (buildRouteTlvAssignments types update routeTlvs) ↔
      Distinct types update routeTlvs (Tlv.isRouteTlvVisibleOnRoute types)) :=
  ⟨exact_buildAssignments_iff .., exact_buildAssignments_iff ..⟩

end Assignments

/-- A group that lists the only NLRI twice, and a path marking for the group. -/
def repeatingTlvs : List Tlv :=
  [⟨4, none, 4, some 0x8001, [0, 1, 0, 1], [0, 1, 0, 1]⟩,
    ⟨8, none, 4, some 0x8001, [0, 0, 0, 2], [0, 0, 0, 2]⟩]

theorem marking_assigned_twice :
    let types := tlvTypes false none
    let update : ParsedUpdate Unit := ⟨[()], [], by decide⟩
    (buildPathMarkingAssignments types update repeatingTlvs ()).map length = some 2 ∧
      (buildRouteTlvAssignments types update repeatingTlvs ()).map length = some 2 ∧
      repeatingTlvs.countP (Tlv.isPathMarkingTlv types) = 1 ∧
      repeatingTlvs.countP (Tlv.isRouteTlvVisibleOnRoute types) = 1 := by
  decide

end Bmp
