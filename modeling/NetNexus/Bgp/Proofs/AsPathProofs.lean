import NetNexus.Bgp.AsPath
import NetNexus.Node.Proofs.TextProofs
import NetNexus.Wire.Proofs.SequenceProofs

/-!
# AS paths: round trip and reconstruction
-/

namespace Bgp

open List Node

/-! ## Chunks -/

section Chunks

variable {α : Type*} {n : ℕ}

/-- Neither an empty chunk nor one that is too long -/
def Chunked (n : ℕ) (chunks : List (List α)) : Prop :=
  ∀ chunk ∈ chunks, chunk ≠ [] ∧ chunk.length ≤ n

theorem Chunked.concat {chunks : List (List α)} {last : List α} (h : Chunked n chunks)
    (hne : last ≠ []) (hlen : last.length ≤ n) : Chunked n (chunks ++ [last]) :=
  List.forall_mem_append.mpr ⟨h, List.forall_mem_singleton.mpr ⟨hne, hlen⟩⟩

theorem toChunks_go_spec (hn : 0 < n) (xs : List α) :
    ∀ (last : Array α) (chunks : Array (List α)), last.toList ≠ [] → last.size ≤ n →
      Chunked n chunks.toList → Chunked n (List.toChunks.go n xs last chunks) ∧
      (List.toChunks.go n xs last chunks).flatten = chunks.toList.flatten ++ last.toList ++ xs := by
  induction xs with
  | nil =>
    intro last chunks hne hsize hchs
    simp only [List.toChunks.go, Array.toList_push, flatten_append, flatten_singleton,
      append_nil, and_true]
    exact hchs.concat hne hsize
  | cons x _ ih =>
    intro last chunks hne hsize hchs
    rw [List.toChunks.go]
    split
    · obtain ⟨hall, hflat⟩ := ih ((Array.mkEmpty n).push x) _ (by simp)
        (by simp; omega) (by rw [Array.toList_push]; exact hchs.concat hne hsize)
      exact ⟨hall, by rw [hflat]; simp⟩
    · rename_i hfull
      have hsize' : (last.push x).size ≤ n := by
        have hne : last.size ≠ n := by simpa using hfull
        rw [Array.size_push]
        omega
      obtain ⟨hall, hflat⟩ := ih _ chunks (by simp) hsize' hchs
      exact ⟨hall, by simp [hflat]⟩

theorem toChunks_spec (hn : 0 < n) (xs : List α) :
    Chunked n (xs.toChunks n) ∧ (xs.toChunks n).flatten = xs := by
  cases xs with
  | nil => exact ⟨by simp [Chunked, toChunks], by simp [toChunks]⟩
  | cons x xs =>
    obtain ⟨n, rfl⟩ : ∃ m, n = m + 1 := ⟨n - 1, by omega⟩
    obtain ⟨hall, hflat⟩ := toChunks_go_spec hn xs #[x] #[] (by simp) (by simp) (by simp [Chunked])
    exact ⟨hall, hflat⟩

end Chunks

/-! ## Coding -/

variable {use4ByteAsn : Bool} {numbers : List ℤ}

/-- The bytes of an AS number -/
def asnSize (use4ByteAsn : Bool) : ℕ := if use4ByteAsn then 4 else 2

def writeAsn (use4ByteAsn : Bool) (asn : ℤ) : Buffer :=
  if use4ByteAsn then writeUInt32 asn else writeUInt16 asn

/-- The numbers are AS numbers of that size. -/
def AreAsns (use4ByteAsn : Bool) (numbers : List ℤ) : Prop :=
  ∀ asn ∈ numbers, 0 ≤ asn ∧ asn < 2 ^ (8 * asnSize use4ByteAsn)

theorem length_writeAsn (asn : ℤ) : (writeAsn use4ByteAsn asn).length = asnSize use4ByteAsn := by
  cases use4ByteAsn <;> rfl

theorem ofBytes_writeAsn {asn : ℤ} (hpos : 0 ≤ asn) (h : asn < 2 ^ (8 * asnSize use4ByteAsn)) :
    ofBytes (writeAsn use4ByteAsn asn) = asn.toNat := by
  cases use4ByteAsn with
  | false =>
    have hlt : asn < 2 ^ 16 := h
    exact (ofBytes_uint16be (by omega)).trans (by rw [Int.emod_eq_of_lt hpos hlt])
  | true =>
    have hlt : asn < 2 ^ 32 := h
    exact (ofBytes_uint32be (by omega)).trans (by rw [Int.emod_eq_of_lt hpos hlt])

theorem length_writeAsns (numbers : List ℤ) :
    (numbers.flatMap (writeAsn use4ByteAsn)).length = numbers.length * asnSize use4ByteAsn := by
  simp [length_writeAsn]

theorem readAsNumbers_writeAsns (h : AreAsns use4ByteAsn numbers) (rest : Buffer) :
    readAsNumbers (asnSize use4ByteAsn) numbers.length
      (numbers.flatMap (writeAsn use4ByteAsn) ++ rest) = numbers.map Int.toNat := by
  induction numbers with
  | nil => rfl
  | cons asn _ ih =>
    obtain ⟨⟨hpos, hlt⟩, hnums⟩ := List.forall_mem_cons.mp h
    rw [flatMap_cons, append_assoc, length_cons, readAsNumbers,
      take_left' (length_writeAsn asn), drop_left' (length_writeAsn asn),
      ofBytes_writeAsn hpos hlt, ih hnums, map_cons]

/-- A segment of a route's AS path -/
def writeSegment (use4ByteAsn : Bool) (numbers : List ℤ) : Buffer :=
  2 :: UInt8.ofNat numbers.length :: numbers.flatMap (writeAsn use4ByteAsn)

theorem readSegment_writeSegment (hpos : numbers ≠ []) (hlen : numbers.length ≤ 255)
    (h : AreAsns use4ByteAsn numbers) (count : ℕ) (rest : Buffer) :
    readSegment (asnSize use4ByteAsn) count (writeSegment use4ByteAsn numbers ++ rest)
      = { item := some ⟨.sequence, numbers.map Int.toNat⟩, rest } := by
  have hcount : (UInt8.ofNat numbers.length).toNat = numbers.length := by
    rw [UInt8.toNat_ofNat']
    omega
  have hzero : ¬ UInt8.ofNat numbers.length = 0 := by
    intro hzero
    rw [hzero] at hcount
    exact hpos (List.length_eq_zero_iff.mp hcount.symm)
  have hbytes := @length_writeAsns use4ByteAsn numbers
  rw [writeSegment, cons_append, cons_append, readSegment]
  have htype : segmentType 2 = some .sequence := rfl
  rw [htype]
  dsimp only
  rw [hcount, if_neg hzero, if_neg (by rw [length_append]; omega), readAsNumbers_writeAsns h,
    drop_left' hbytes]

/-- Every path of AS numbers comes back in segments of at most 255 numbers. -/
theorem parseAsPath_asSegments (h : AreAsns use4ByteAsn numbers) :
    parseAsPath (asnSize use4ByteAsn) (asSegments use4ByteAsn numbers)
      = ⟨(numbers.toChunks 255).map fun chunk => ⟨.sequence, chunk.map Int.toNat⟩, [], true⟩ := by
  obtain ⟨hchs, hflat⟩ := toChunks_spec (n := 255) (by omega) numbers
  refine @Wire.readSequence_flatMap _ _ _ _ _ _ _ _
    (fun _ _ => cons_ne_nil _ _) fun chunk hchunk count rest => ?_
  refine readSegment_writeSegment (hchs chunk hchunk).1 (hchs chunk hchunk).2 ?_ count rest
  intro asn hasn
  exact h asn (hflat ▸ mem_flatten_of_mem hchunk hasn)

theorem filterMap_parseInt {texts : List (List Char)} {numbers : List ℕ}
    (h : texts.map decimal? = numbers.map some) :
    texts.filterMap (fun text => parseInt (String.ofList text)) = numbers.map Int.ofNat := by
  induction texts generalizing numbers with
  | nil =>
    obtain rfl : numbers = [] := List.map_eq_nil_iff.mp h.symm
    rfl
  | cons _ _ ih =>
    cases numbers with
    | nil => cases h
    | cons n _ =>
      obtain ⟨htext, htexts⟩ := List.cons_eq_cons.mp h
      rw [filterMap_cons, parseInt_of_decimal? htext, ih htexts]
      rfl

/-- A text of decimal numbers between any white space is read back as these numbers. Only a path
without numbers has no bytes. -/
theorem parseAsPath_parseRouteAsPath (asPath : String) (use4ByteAsn : Bool) (numbers : List ℕ)
    (htext : (words asPath.toList).map decimal? = numbers.map some)
    (hsize : ∀ asn ∈ numbers, asn < 2 ^ (8 * asnSize use4ByteAsn)) :
    (parseRouteAsPath asPath use4ByteAsn = none ↔ numbers = []) ∧
    let parsed := parseAsPath (asnSize use4ByteAsn)
      ((parseRouteAsPath asPath use4ByteAsn).getD [])
    parsed.errors = [] ∧ parsed.items.flatMap Segment.asNumbers = numbers ∧
      ∀ segment ∈ parsed.items, segment.type = .sequence ∧ segment.asNumbers.length ≤ 255 := by
  have hnums : asNumbers asPath = numbers.map Int.ofNat := filterMap_parseInt htext
  have hasns : AreAsns use4ByteAsn (asNumbers asPath) := by
    rw [hnums]
    refine List.forall_mem_map.mpr fun n hn => ⟨Int.natCast_nonneg n, ?_⟩
    rw [Int.ofNat_eq_natCast]
    exact_mod_cast hsize n hn
  have hbytes : (parseRouteAsPath asPath use4ByteAsn).getD []
      = asSegments use4ByteAsn (asNumbers asPath) := by
    unfold parseRouteAsPath
    dsimp only
    split
    · rename_i hnil
      rw [hnil]
      rfl
    · rfl
  obtain ⟨hchs, hflat⟩ := toChunks_spec (n := 255) (by omega) _
  refine ⟨by simp [parseRouteAsPath, hnums], ?_⟩
  rw [hbytes, parseAsPath_asSegments hasns]
  refine ⟨rfl, ?_, List.forall_mem_map.mpr fun chunk hchunk => ⟨rfl, ?_⟩⟩
  · calc _ = ((asNumbers asPath).toChunks 255).flatten.map Int.toNat := by
          simp [flatMap_def, Function.comp_def]
      _ = numbers := by
          rw [hflat, hnums]
          simp [Function.comp_def]
  · rw [length_map]
    exact (hchs chunk hchunk).2

theorem parseAsPath_parseRouteAsPath_padded :
    (words " 65001\t007  4200000000 ".toList).map decimal? = [65001, 7, 4200000000].map some ∧
    (parseAsPath 4 ((parseRouteAsPath " 65001\t007  4200000000 " true).getD [])).items.flatMap
      Segment.asNumbers = [65001, 7, 4200000000] :=
  have htext : (words " 65001\t007  4200000000 ".toList).map decimal?
    = [65001, 7, 4200000000].map some := by decide +kernel
  ⟨htext, (parseAsPath_parseRouteAsPath _ true _ htext (by decide)).2.2.1⟩

/-! ## Reconstruction -/

/-- What the leading hops of a path are: whole segments, with the confederation segments between
them, and at the end possibly the front of a sequence. -/
inductive Leads : List Segment → List Segment → Prop
  | nil : Leads [] []
  | keep (segment : Segment) {front path : List Segment} (h : Leads front path) :
    Leads (segment :: front) (segment :: path)
  | stop {segment : Segment} (path : List Segment) (h : ¬ segment.isConfederation) :
    Leads [] (segment :: path)
  | cut {segment : Segment} (path : List Segment) {count : ℕ} (htype : segment.type = .sequence)
    (hpos : 0 < count) (hcount : count < segment.asNumbers.length) :
    Leads [{ segment with asNumbers := segment.asNumbers.take count }] (segment :: path)

theorem Segment.type_eq_sequence {segment : Segment} (hconfed : ¬ segment.isConfederation)
    (hset : ¬ segment.type = .set) : segment.type = .sequence := by
  unfold isConfederation at hconfed
  cases h : segment.type <;> simp_all

theorem leadingHops_spec (remaining : ℕ) (path : List Segment) :
    Leads (leadingHops remaining path) path ∧
      pathLength (leadingHops remaining path) = min remaining (pathLength path) := by
  induction path generalizing remaining with
  | nil => exact ⟨.nil, by simp [leadingHops, pathLength]⟩
  | cons segment _ ih =>
    unfold leadingHops
    have hlen front :
        pathLength (segment :: front) = segment.hops + pathLength front := by simp [pathLength]
    split_ifs with hconfed hzero hset
    · have hhops : segment.hops = 0 := if_pos hconfed
      refine ⟨.keep _ (ih remaining).1, ?_⟩
      rw [hlen, hlen, (ih remaining).2, hhops, Nat.zero_add, Nat.zero_add]
    · exact ⟨.stop _ hconfed, by simp [hzero, pathLength]⟩
    · have hhops : segment.hops = 1 := by rw [Segment.hops, if_neg hconfed, if_pos hset]
      refine ⟨.keep _ (ih _).1, ?_⟩
      rw [hlen, hlen, (ih _).2]
      omega
    · have hhops : segment.hops = segment.asNumbers.length := by
        rw [Segment.hops, if_neg hconfed, if_neg hset]
      dsimp only
      split_ifs with hcut
      · refine ⟨.cut _ (Segment.type_eq_sequence hconfed hset) (by omega) hcut, ?_⟩
        simp [pathLength, Segment.hops, Segment.type_eq_sequence hconfed hset,
          Segment.isConfederation]
        omega
      · refine ⟨.keep _ (ih _).1, ?_⟩
        rw [hlen, hlen, (ih _).2]
        omega

/-- `reconstructLegacyAsPath` replaces the trailing hops of the AS_PATH by the AS4_PATH, if it has
that many. -/
theorem reconstructLegacyAsPath_spec (asPath rawAs4Path : List Segment) :
    let as4Path := rawAs4Path.filter fun segment => !segment.isConfederation
    let result := reconstructLegacyAsPath asPath rawAs4Path
    (as4Path = [] ∨ pathLength asPath < pathLength as4Path → result = asPath) ∧
    (as4Path ≠ [] ∧ pathLength as4Path ≤ pathLength asPath →
      pathLength result = pathLength asPath ∧
      ∃ front, Leads front asPath ∧ result = front ++ as4Path) := by
  unfold reconstructLegacyAsPath
  refine ⟨fun h => if_pos h.symm, fun ⟨hne, hlen⟩ => ?_⟩
  rw [if_neg (not_or.mpr ⟨hlen.not_gt, hne⟩)]
  obtain ⟨hleads, _⟩ := leadingHops_spec _ asPath
  refine ⟨?_, _, hleads, rfl⟩
  have happ (front back) :
      pathLength (front ++ back) = pathLength front + pathLength back := by simp [pathLength]
  rw [happ]
  omega

end Bgp
