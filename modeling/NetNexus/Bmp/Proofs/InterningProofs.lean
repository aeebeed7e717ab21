import NetNexus.Bmp.Interning
import NetNexus.Table.Proofs.TableProofs

/-!
# Interned descriptors come back

A position always stands for a descriptor with the value that was sent, and lists of descriptors
only grow. So each mutation is decoded to one that says the same, and the mutations for each client
are those of its source, in order.
-/

namespace Bmp.Interning

open Function Interning.Mutation List

variable {ρ κ δ π : Type} {heap : Heap ρ κ}

/-! ## Positions -/

theorem map_getElem?_of_prefix {table table' : List ρ} {position : ℕ} {value : Descriptor κ}
    (hle : table <+: table') (h : (table[position]?).map heap.value = some value) :
    (table'[position]?).map heap.value = some value := by
  obtain ⟨_, hobject, hvalue⟩ := Option.map_eq_some_iff.mp h
  obtain ⟨-, rfl⟩ := hle
  rw [getElem?_append_left (List.getElem?_eq_some_iff.mp hobject).1, hobject, ← hvalue]
  rfl

/-- A known object has the position of a descriptor with its value. -/
def Interned.Sound (heap : Heap ρ κ) (s : Interned ρ) : Prop :=
  ∀ object position, s.objects object = some position →
    (s.table[position]?).map heap.value = some (heap.value object)

variable [DecidableEq ρ]

theorem Interned.Sound.update {s s' : Interned ρ} (h : s.Sound heap) (hle : s.table <+: s'.table)
    {object : ρ} {position : ℕ} (hobjs : s'.objects = update s.objects object (some position))
    (hvalue : (s'.table[position]?).map heap.value = some (heap.value object)) : s'.Sound heap := by
  intro other found hfound
  rw [hobjs] at hfound
  by_cases heq : other = object
  · subst heq
    rw [update_self] at hfound
    exact Option.some.inj hfound ▸ hvalue
  · rw [update_of_ne heq] at hfound
    exact map_getElem?_of_prefix hle (h other found hfound)

/-- What a step of the encoder gives: more descriptors, and what was sent for this one. -/
structure Encodes (heap : Heap ρ κ) (s : Interned ρ) (object : Option ρ)
    (encoded : Interned ρ × Sent ρ) : Prop where
  sound : encoded.1.Sound heap
  le : s.table <+: encoded.1.table
  decode : ∀ table, encoded.1.table <+: table →
    (encoded.2.decode table).map heap.value = object.map heap.value

variable [DecidableEq κ]

theorem intern_spec {s : Interned ρ} (h : s.Sound heap) (value : ρ) :
    (intern heap s value).1.Sound heap ∧ s.table <+: (intern heap s value).1.table ∧
      ((intern heap s value).1.table[(intern heap s value).2]?).map heap.value =
        some (heap.value value) := by
  unfold intern
  split
  · rename_i existing hexist
    exact ⟨h, prefix_rfl, h value existing hexist⟩
  dsimp only
  split
  · rename_i position hpos
    have hvalue : (s.table[position]?).map heap.value = some (heap.value value) := by
      simpa using find?_some hpos
    exact ⟨h.update prefix_rfl rfl hvalue, prefix_rfl, hvalue⟩
  · have hvalue : ((s.table ++ [value])[s.table.length]?).map heap.value =
        some (heap.value value) := by
      rw [getElem?_concat_length]
      rfl
    exact ⟨h.update (prefix_append ..) rfl hvalue, prefix_append .., hvalue⟩

theorem encodeDescriptor_spec {s : Interned ρ} (h : s.Sound heap) (object : Option ρ) :
    Encodes heap s object (encodeDescriptor heap s object) := by
  cases object with
  | none => exact ⟨h, prefix_rfl, fun _ _ => rfl⟩
  | some value =>
    rw [encodeDescriptor]
    split
    · obtain ⟨hsound, hle, hvalue⟩ := intern_spec h value
      exact ⟨hsound, hle, fun table htable => map_getElem?_of_prefix htable hvalue⟩
    · exact ⟨h, prefix_rfl, fun _ _ => rfl⟩

/-! ## Mutations -/

/-- What is interned is on the heap. -/
structure Refs.Sound (heap : Heap ρ κ) (refs : Refs ρ) : Prop where
  sources : refs.sources.Sound heap
  connections : refs.connections.Sound heap
  scopes : refs.scopes.Sound heap

/-- Nothing that was interned is lost. -/
structure Refs.Le (refs refs' : Refs ρ) : Prop where
  sources : refs.sources.table <+: refs'.sources.table
  connections : refs.connections.table <+: refs'.connections.table
  scopes : refs.scopes.table <+: refs'.scopes.table

theorem encodeMutations_spec {refs : Refs ρ} (h : refs.Sound heap) (ms : List (Original ρ π)) :
    refs.Le (encodeMutations heap refs ms).1 ∧ ∀ last, (encodeMutations heap refs ms).1.Le last →
      ((encodeMutations heap refs ms).2.map (decodeMutation last)).map (value heap) =
        ms.map (value heap) := by
  induction ms generalizing refs with
  | nil => exact ⟨⟨prefix_rfl, prefix_rfl, prefix_rfl⟩, fun _ _ => rfl⟩
  | cons m _ ih =>
    have hsrc := encodeDescriptor_spec h.sources m.source
    have hconn := encodeDescriptor_spec h.connections m.connection
    have hscope := encodeDescriptor_spec h.scopes m.scope
    obtain ⟨hle, hlater⟩ := @ih (encodeMutation heap refs m).1
      ⟨hsrc.sound, hconn.sound, hscope.sound⟩
    refine ⟨⟨hsrc.le.trans hle.sources, hconn.le.trans hle.connections,
      hscope.le.trans hle.scopes⟩, fun last hlast => ?_⟩
    have hfirst : (decodeMutation last (encodeMutation heap refs m).2).value heap =
        m.value heap := by
      unfold value
      congr 1
      · exact hsrc.decode _ (hle.sources.trans hlast.sources)
      · exact hconn.decode _ (hle.connections.trans hlast.connections)
      · exact hscope.decode _ (hle.scopes.trans hlast.scopes)
    exact congrArg₂ List.cons hfirst (hlater last hlast)

theorem decodeBatchMutations_encodeBatchMutations (heap : Heap ρ κ) (ms : List (Original ρ π)) :
    (decodeBatchMutations (encodeBatchMutations heap ms)).map (value heap) =
      ms.map (value heap) := by
  have hsound : ({} : Interned ρ).Sound heap := nofun
  exact (encodeMutations_spec ⟨hsound, hsound, hsound⟩ ms).2 _ ⟨prefix_rfl, prefix_rfl, prefix_rfl⟩

/-! ## Clients -/

omit [DecidableEq κ] in
/-- Sources that were met before are normalised as if they were met now. -/
theorem decodeMutations_eq {normalizedSources : ρ → Option (ClientSource κ)} (refs : Refs ρ)
    (h : ∀ source normalized, normalizedSources source = some normalized →
      normalizeSource (heap.value source) = some normalized) (ms : List (Encoded ρ π)) :
    (decodeMutations heap refs normalizedSources ms).map (List.map (clientValue heap)) =
      ((ms.map (decodeMutation refs)).map (value heap)).mapM forClient := by
  induction ms generalizing normalizedSources with
  | nil => rfl
  | cons m ms ih =>
    rw [decodeMutations, map_cons, map_cons, mapM_cons]
    cases hsrc : (decodeMutation refs m).source with
    | none => simp [forClient, value, hsrc]
    | some source =>
      have hnorm : (normalizedSources source).or (normalizeSource (heap.value source)) =
          normalizeSource (heap.value source) := by
        cases hknown : normalizedSources source with
        | none => rfl
        | some known => exact (h source known hknown).symm
      simp only [Option.bind_eq_bind, Option.bind_some, hnorm]
      cases hnew : normalizeSource _ with
      | none => simp [forClient, value, hsrc, hnew]
      | some normalized =>
        have hlater := @ih (update normalizedSources source (some normalized)) (by
          intro other found hfound
          by_cases heq : other = source
          · subst heq
            rw [update_self] at hfound
            rw [hnew, hfound]
          · rw [update_of_ne heq] at hfound
            exact h other found hfound)
        rw [← hlater]
        simp only [forClient, value, hsrc, Option.map_some, Option.bind_some, hnew]
        cases decodeMutations heap refs _ ms with
        | none | _ _ => rfl

omit [DecidableEq ρ] [DecidableEq κ] in
theorem handed_groupMutations (ms : List (Mutation (ClientSource κ) δ π)) (id : String) :
    (groupMutations ms).handed id = ms.filter fun m => m.source.id = id := by
  induction ms using reverseRecOn with
  | nil => rfl
  | append_singleton ms m ih =>
    rw [groupMutations, foldl_append, foldl_cons, foldl_nil, Groups.handed, Table.find?_upsert]
    by_cases hid : m.source.id = id
    · subst hid
      rw [if_pos rfl]
      show (groupMutations ms).handed m.source.id ++ _ = _
      rw [ih]
      simp
    · rw [if_neg hid]
      show (groupMutations ms).handed id = _
      rw [ih]
      simp [hid]

/-- Decoded mutations say what the original ones say, in order, however their descriptors are
shared or repeated. The store of each client gets the mutations of its source, in order, unless
some source has no valid identifier: then no store gets any. -/
theorem batch_interning_exact (heap : Heap ρ κ) (ms : List (Original ρ π)) :
    (decodeBatchMutations (encodeBatchMutations heap ms)).map (Mutation.value heap) =
        ms.map (Mutation.value heap) ∧
      match (ms.map (Mutation.value heap)).mapM Mutation.forClient with
      | none => clientGroups heap (encodeBatchMutations heap ms) = none
      | some clientMutations =>
        ∃ groups, clientGroups heap (encodeBatchMutations heap ms) = some groups ∧
          ∀ id, (groups.handed id).map (Mutation.clientValue heap) =
            clientMutations.filter fun m => m.source.id = id := by
  have hround := decodeBatchMutations_encodeBatchMutations heap ms
  have hdec := @decodeMutations_eq ρ κ π heap _ (fun _ => none) (encodeBatchMutations heap ms).1
    nofun (encodeBatchMutations heap ms).2
  rw [decodeBatchMutations] at hround
  rw [hround] at hdec
  refine ⟨hround, ?_⟩
  rw [← hdec]
  unfold clientGroups
  cases decodeMutations heap (encodeBatchMutations heap ms).1 _
    (encodeBatchMutations heap ms).2 with
  | none => rfl
  | some decoded =>
    refine ⟨groupMutations decoded, rfl, fun id => ?_⟩
    rw [handed_groupMutations, filter_map]
    rfl

end Bmp.Interning
