import NetNexus.Node.Text
import NetNexus.Table.Table

/-!
# Descriptors of a batch

`encodeBatchMutations` of the client sends every descriptor once. `decodeBatchMutations` of a store
and `decodeMutations` of the store of all clients put them back, and the latter hands the store of
each client its mutations. An object is a reference here, and what it says is its value: objects
are deeply equal if they have the same value.
-/

namespace Bmp.Interning

/-- The `id` of a descriptor. -/
inductive DescriptorId where
  | text (id : String)
  | other (truthy : Bool)
  deriving DecidableEq

def DescriptorId.truthy : DescriptorId → Bool
  | .text id => id ≠ ""
  | .other truthy => truthy

/-- A source, a connection or a scope with its id. -/
structure Descriptor (κ : Type) where
  id : DescriptorId
  rest : κ
  deriving DecidableEq

/-- The objects of a batch: their values, and their JSON texts unless `JSON.stringify` throws. The
text is not a function of the value, as it depends on the order of the keys. -/
structure Heap (ρ κ : Type) where
  value : ρ → Descriptor κ
  stringify : ρ → Option String

/-- A mutation. A descriptor that is not an object is part of the rest. -/
structure Mutation (σ δ π : Type) where
  source : σ
  connection : δ
  scope : δ
  rest : π

/-- A mutation as it is given. -/
abbrev Original (ρ π : Type) : Type := Mutation (Option ρ) (Option ρ) π

/-- A descriptor as it is sent: in its place, or its position in `refs` -/
inductive Sent (ρ : Type) where
  | inline (value : Option ρ)
  | ref (position : ℕ)

/-- A mutation as it is sent. -/
abbrev Encoded (ρ π : Type) : Type := Mutation (Sent ρ) (Sent ρ) π

/-- The descriptors of one kind that were met so far. -/
structure Interned (ρ : Type) where
  index : String → List ℕ := fun _ => []
  objects : ρ → Option ℕ := fun _ => none
  table : List ρ := []

/-- The descriptors that are interned, by kind. -/
structure Refs (ρ : Type) where
  sources : Interned ρ := {}
  connections : Interned ρ := {}
  scopes : Interned ρ := {}

abbrev Batch (ρ π : Type) : Type := Refs ρ × List (Encoded ρ π)

variable {ρ κ δ π : Type}

section Encode

variable [DecidableEq ρ] [DecidableEq κ] (heap : Heap ρ κ)

def intern (s : Interned ρ) (value : ρ) : Interned ρ × ℕ :=
  match s.objects value with
  | some existing => (s, existing)
  | none =>
    let key := heap.stringify value
    let positions := key.elim [] s.index
    match positions.find? fun candidate =>
      (s.table[candidate]?).map heap.value = some (heap.value value) with
    | some position =>
      ({ s with objects := Function.update s.objects value (some position) }, position)
    | none =>
      let position := s.table.length
      ({ index := key.elim s.index fun key =>
           Function.update s.index key (positions ++ [position])
         objects := Function.update s.objects value (some position)
         table := s.table ++ [value] }, position)

/-- Only an object with a truthy `id` is interned. -/
def encodeDescriptor (s : Interned ρ) : Option ρ → Interned ρ × Sent ρ
  | some value =>
    if (heap.value value).id.truthy then
      let interned := intern heap s value
      (interned.1, .ref interned.2)
    else (s, .inline (some value))
  | none => (s, .inline none)

def encodeMutation (refs : Refs ρ) (m : Original ρ π) : Refs ρ × Encoded ρ π :=
  let source := encodeDescriptor heap refs.sources m.source
  let connection := encodeDescriptor heap refs.connections m.connection
  let scope := encodeDescriptor heap refs.scopes m.scope
  (⟨source.1, connection.1, scope.1⟩, ⟨source.2, connection.2, scope.2, m.rest⟩)

def encodeMutations (refs : Refs ρ) : List (Original ρ π) → Batch ρ π
  | [] => (refs, [])
  | m :: ms =>
    let first := encodeMutation heap refs m
    let later := encodeMutations first.1 ms
    (later.1, first.2 :: later.2)

def encodeBatchMutations (ms : List (Original ρ π)) : Batch ρ π := encodeMutations heap {} ms

end Encode

/-! ## Decoding -/

def Sent.decode (table : List ρ) : Sent ρ → Option ρ
  | .inline value => value
  | .ref position => table[position]?

def decodeMutation (refs : Refs ρ) (m : Encoded ρ π) : Original ρ π where
  source := m.source.decode refs.sources.table
  connection := m.connection.decode refs.connections.table
  scope := m.scope.decode refs.scopes.table
  rest := m.rest

def decodeBatchMutations (batch : Batch ρ π) : List (Original ρ π) :=
  batch.2.map (decodeMutation batch.1)

/-! ## The store of all clients -/

/-- `toLowerCase` of a letter that is not ASCII has no hexadecimal digit. -/
def normalizeClientSourceId : DescriptorId → Option String
  | .text id =>
    let normalized := (Node.trim id.toList).map Char.toLower
    if normalized.length = 64 ∧ normalized.all (fun c => c.isDigit || 'a' ≤ c && c ≤ 'f') then
      some (String.ofList normalized)
    else none
  | .other _ => none

/-- A source whose `id` is the one that `sourceIds` has for it. -/
structure ClientSource (κ : Type) where
  id : String
  rest : κ

def normalizeSource (source : Descriptor κ) : Option (ClientSource κ) :=
  (normalizeClientSourceId source.id).map fun id => ⟨id, source.rest⟩

/-- The mutations, or nothing if an identifier is not valid and the call throws. -/
def decodeMutations [DecidableEq ρ] (heap : Heap ρ κ) (refs : Refs ρ)
    (normalizedSources : ρ → Option (ClientSource κ)) :
    List (Encoded ρ π) → Option (List (Mutation (ClientSource κ) (Option ρ) π))
  | [] => some []
  | m :: ms => do
    let m := decodeMutation refs m
    let source ← m.source
    let normalized ← (normalizedSources source).or (normalizeSource (heap.value source))
    let later ← decodeMutations heap refs
      (Function.update normalizedSources source (some normalized)) ms
    return ⟨normalized, m.connection, m.scope, m.rest⟩ :: later

/-- The mutations by client, in the order of `Map`. -/
abbrev Groups (κ δ π : Type) : Type :=
  Table (Prod.fst : String × List (Mutation (ClientSource κ) δ π) → String)

/-- The mutations for the store of a client. -/
def Groups.handed (groups : Groups κ δ π) (id : String) : List (Mutation (ClientSource κ) δ π) :=
  (groups.find? id).elim [] Prod.snd

def groupMutations (ms : List (Mutation (ClientSource κ) δ π)) : Groups κ δ π :=
  ms.foldl (fun groups m => groups.upsert (m.source.id, groups.handed m.source.id ++ [m])) .empty

/-- What `applyBatch` hands to the stores. -/
def clientGroups [DecidableEq ρ] (heap : Heap ρ κ) (batch : Batch ρ π) :
    Option (Groups κ (Option ρ) π) :=
  (decodeMutations heap batch.1 (fun _ => none) batch.2).map groupMutations

/-! ## What a mutation says -/

/-- The mutation with the values of its descriptors. -/
def Mutation.value (heap : Heap ρ κ) (m : Original ρ π) :
    Mutation (Option (Descriptor κ)) (Option (Descriptor κ)) π :=
  ⟨m.source.map heap.value, m.connection.map heap.value, m.scope.map heap.value, m.rest⟩

/-- The same for a mutation that was handed to a client's store. -/
def Mutation.clientValue (heap : Heap ρ κ) (m : Mutation (ClientSource κ) (Option ρ) π) :
    Mutation (ClientSource κ) (Option (Descriptor κ)) π :=
  ⟨m.source, m.connection.map heap.value, m.scope.map heap.value, m.rest⟩

/-- What a client's store is to get of a mutation, unless the identifier of its source is not
valid. -/
def Mutation.forClient (m : Mutation (Option (Descriptor κ)) δ π) :
    Option (Mutation (ClientSource κ) δ π) :=
  (m.source.bind normalizeSource).map fun source => ⟨source, m.connection, m.scope, m.rest⟩

end Bmp.Interning
