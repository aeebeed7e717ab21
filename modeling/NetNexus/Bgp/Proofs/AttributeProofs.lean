import NetNexus.Bgp.Announcement
import NetNexus.Control.Fallible
import NetNexus.Node.Proofs.NumberProofs

/-!
# The section of path attributes
-/

namespace Bgp

open Control List Node

/-- The number of bytes of a value in the form that the flags ask for. -/
def lengthBytes (flags : UInt8) (n : ℕ) : Buffer :=
  if extendedLength flags then uint16be n else [UInt8.ofNat n]

namespace RawAttribute

/-- What the parser of the value asks for: an attribute that carries NLRIs has the header of such
a value, and a parser that is a parameter does not throw. -/
def Complete {ν : Type} (context : ParseContext ν) (raw : RawAttribute) : Prop :=
  (raw.type = mpReachType → (raw.value.getD 3 0).toNat + 5 ≤ raw.value.length) ∧
    (raw.type = mpUnreachType → 3 ≤ raw.value.length) ∧
    (raw.type ∈ [16, 22, 23, 40] → (raw.type = 16 → raw.value.length % 8 = 0) →
      ∃ parsed, context.parseValue raw.type raw.value = .ok parsed)

/-- What `buildPathAttribute` makes of the flags. -/
def built (raw : RawAttribute) : RawAttribute :=
  { raw with flags := if 255 < raw.value.length then raw.flags ||| 0x10 else raw.flags }

end RawAttribute

variable {ν : Type} {context : ParseContext ν} {raw : RawAttribute} {flags : UInt8} {n : ℕ}

theorem length_lengthBytes :
    (lengthBytes flags n).length = if extendedLength flags then 2 else 1 := by
  rw [lengthBytes]
  split <;> rfl

theorem ofBytes_lengthBytes (h : n < if extendedLength flags then 2 ^ 16 else 2 ^ 8) :
    ofBytes (lengthBytes flags n) = n := by
  rw [lengthBytes]
  split <;> rename_i hflag
  · rw [if_pos hflag] at h
    exact ofBytes_uint16be h
  · rw [if_neg hflag] at h
    exact ofBytes_singleton h

/-! ## The rounds -/

/-- A round looks at the section only, whatever stands behind it. -/
theorem readAttribute_field {type : UInt8} {field rest behind : Buffer}
    (hfield : field.length = if extendedLength flags then 2 else 1) :
    readAttribute (2 + field.length + rest.length) (flags :: type :: (field ++ rest) ++ behind) =
      if rest.length < ofBytes field then .error "Path attribute value exceeds its section"
      else .ok (⟨flags, type, rest.take (ofBytes field)⟩, 2 + field.length + ofBytes field) := by
  have hstart : (if extendedLength flags then 4 else 3) = 2 + field.length := by
    rw [hfield]
    split <;> rfl
  have hbytes : flags :: type :: (field ++ rest) ++ behind =
      flags :: type :: field ++ (rest ++ behind) := by simp
  have hlen : (flags :: type :: field).length = 2 + field.length := by
    rw [length_cons, length_cons]
    omega
  rw [readAttribute, hbytes]
  simp only [cons_append, getD_cons_zero, getD_cons_succ, hstart]
  rw [← cons_append, ← cons_append, take_left' hlen, drop_left' hlen, if_neg (by omega),
    if_neg (by omega)]
  simp only [drop_succ_cons, drop_zero, Nat.add_lt_add_iff_left]
  by_cases hvalue : rest.length < ofBytes field
  · rw [if_pos hvalue, if_pos hvalue]
  · rw [if_neg hvalue, if_neg hvalue, take_append_of_le_length (not_lt.mp hvalue)]

theorem readAttribute_bytes {rest : Buffer} (h : raw.Sized) (behind : Buffer) :
    readAttribute (raw.bytes ++ rest).length (raw.bytes ++ rest ++ behind) =
      .ok (raw, raw.bytes.length) := by
  have hbytes : raw.bytes ++ rest = raw.flags :: raw.type ::
      (lengthBytes raw.flags raw.value.length ++ (raw.value ++ rest)) :=
    congrArg _ (append_assoc ..)
  have hlen : (raw.bytes ++ rest).length =
      2 + (lengthBytes raw.flags raw.value.length).length + (raw.value ++ rest).length := by
    rw [hbytes]
    simp only [length_cons, length_append]
    omega
  rw [hlen, hbytes, readAttribute_field length_lengthBytes, ofBytes_lengthBytes h, take_left,
    if_neg (by simp)]
  rw [length_append, length_append] at hlen
  rw [show 2 + (lengthBytes raw.flags raw.value.length).length + raw.value.length =
    raw.bytes.length by omega]

/-- There is an attribute at the front of a section, or a round stops there. -/
theorem readAttribute_cases (s : Buffer) :
    (∃ raw : RawAttribute, raw.Sized ∧ raw.bytes <+: s) ∨
      ∃ error, ∀ behind, readAttribute s.length (s ++ behind) = .error error := by
  match s with
  | [] | [_] => exact Or.inr ⟨_, fun _ => rfl⟩
  | flags :: type :: rest =>
    by_cases hfield : rest.length < if extendedLength flags then 2 else 1
    · refine Or.inr ⟨if extendedLength flags then "Path attribute extended length is truncated"
        else "Path attribute length is truncated", fun behind => ?_⟩
      rw [readAttribute, if_neg (by simp), if_pos]
      · rfl
      · simp only [cons_append, getD_cons_zero, length_cons]
        split_ifs at hfield ⊢ <;> omega
    · obtain ⟨field, rest, rfl, hlen⟩ : ∃ field rest', rest = field ++ rest' ∧
          field.length = if extendedLength flags then 2 else 1 :=
        ⟨_, _, (take_append_drop ..).symm, length_take_of_le (not_lt.mp hfield)⟩
      have hsize : (flags :: type :: (field ++ rest)).length = 2 + field.length + rest.length := by
        simp only [length_cons, length_append]
        omega
      by_cases hvalue : rest.length < ofBytes field
      · refine Or.inr ⟨"Path attribute value exceeds its section", fun behind => ?_⟩
        rw [hsize, readAttribute_field hlen, if_pos hvalue]
      · have htake := length_take_of_le (not_lt.mp hvalue)
        have hsized : RawAttribute.Sized ⟨flags, type, rest.take (ofBytes field)⟩ := by
          have hlt := ofBytes_lt field
          rw [hlen] at hlt
          rw [RawAttribute.Sized]
          split at hlt <;> simp_all
        have hsame : lengthBytes flags (ofBytes field) = field :=
          ofBytes_inj (length_lengthBytes.trans hlen.symm)
            (ofBytes_lengthBytes (htake ▸ hsized))
        refine Or.inl ⟨_, hsized, rest.drop (ofBytes field), ?_⟩
        show flags :: type :: (lengthBytes flags _ ++ rest.take _) ++ _ = _
        rw [htake, hsame, cons_append, cons_append, append_assoc, take_append_drop]

/-- A round takes an attribute off the front of a section exactly if there is one. -/
theorem readAttribute_eq_ok {s behind : Buffer} :
    readAttribute s.length (s ++ behind) = .ok (raw, n) ↔
      raw.Sized ∧ raw.bytes <+: s ∧ n = raw.bytes.length := by
  constructor
  · intro h
    rcases readAttribute_cases s with ⟨raw', hsized, rest, rfl⟩ | ⟨error, herror⟩
    · rw [readAttribute_bytes hsized] at h
      cases h
      exact ⟨hsized, prefix_append .., rfl⟩
    · rw [herror] at h
      cases h
  · rintro ⟨hsized, ⟨rest, rfl⟩, rfl⟩
    exact readAttribute_bytes hsized behind

/-! ## Values -/

namespace RawAttribute

end RawAttribute

/-! ## Sections -/

/-- The attributes that a section consists of, up to where no attribute follows. -/
structure Framing (s : Buffer) (raws : List RawAttribute) (rest : Buffer) : Prop where
  sized : ∀ raw ∈ raws, raw.Sized
  eq : s = raws.flatMap RawAttribute.bytes ++ rest
  stops : ∀ raw : RawAttribute, raw.Sized → ¬ raw.bytes <+: rest

theorem not_bytes_prefix_nil : ¬ raw.bytes <+: [] := by
  rw [prefix_nil]
  exact cons_ne_nil _ _

namespace Framing

variable {s rest rest' : Buffer} {raws raws' : List RawAttribute}

theorem unique (h : Framing s raws rest) (h' : Framing s raws' rest') :
    raws = raws' ∧ rest = rest' := by
  induction raws generalizing s raws' with
  | nil =>
    obtain rfl : s = rest := h.eq
    cases raws' with
    | nil => exact ⟨rfl, h'.eq⟩
    | cons raw _ =>
      refine absurd ?_ (h.stops raw (h'.sized raw mem_cons_self))
      rw [h'.eq, flatMap_cons, append_assoc]
      exact prefix_append ..
  | cons raw raws ih =>
    have hs := h.eq
    rw [flatMap_cons, append_assoc] at hs
    have hfirst : raw.bytes <+: s := hs ▸ prefix_append ..
    cases raws' with
    | nil =>
      obtain rfl : s = rest' := h'.eq
      exact absurd hfirst (h'.stops raw (h.sized raw mem_cons_self))
    | cons raw' raws' =>
      have hs' := h'.eq
      rw [flatMap_cons, append_assoc] at hs'
      have hsame := (@readAttribute_eq_ok _ _ _ []).mpr
        ⟨h.sized raw mem_cons_self, hfirst, rfl⟩
      rw [(@readAttribute_eq_ok _ _ _ []).mpr
        ⟨h'.sized raw' mem_cons_self, hs' ▸ prefix_append .., rfl⟩] at hsame
      cases hsame
      rw [hs] at hs'
      obtain ⟨rfl, hrest⟩ := ih ⟨fun x hx => h.sized x (mem_cons_of_mem _ hx), rfl, h.stops⟩
        ⟨fun x hx => h'.sized x (mem_cons_of_mem _ hx), append_cancel_left hs', h'.stops⟩
      exact ⟨rfl, hrest⟩

theorem of_bytes (h : ∀ raw ∈ raws, raw.Sized) :
    Framing (raws.flatMap RawAttribute.bytes) raws [] :=
  ⟨h, (append_nil _).symm, fun _ _ => not_bytes_prefix_nil⟩

end Framing

/-- The loop reads the attributes of a section, whatever stands behind it, and notes an error if
there is something left. -/
theorem exists_framing (s : Buffer) : ∃ raws errors rest, Framing s raws rest ∧
    (errors = [] ↔ rest = []) ∧
    ∀ {ν : Type} (context : ParseContext ν) (fuel : ℕ) (behind : Buffer), s.length ≤ fuel →
      attributeLoop context fuel s.length (s ++ behind) =
        (·, errors) <$> raws.mapM (parseAttribute context) := by
  induction hn : s.length using Nat.strong_induction_on generalizing s with
  | _ n ih =>
    subst hn
    rcases readAttribute_cases s with ⟨raw, hsized, s, rfl⟩ | ⟨error, herror⟩
    · have hlen : (raw.bytes ++ s).length = raw.bytes.length + s.length := length_append
      have hpos : 0 < raw.bytes.length := Nat.succ_pos _
      obtain ⟨raws, errors, rest, hframe, hiff, hloop⟩ := ih s.length (by omega) s rfl
      refine ⟨raw :: raws, errors, rest, ⟨forall_mem_cons.mpr ⟨hsized, hframe.sized⟩, ?_,
        hframe.stops⟩, hiff, ?_⟩
      · rw [flatMap_cons, append_assoc, ← hframe.eq]
      intro ν context fuel behind hfuel
      obtain ⟨fuel, rfl⟩ : ∃ m, fuel = m + 1 := ⟨fuel - 1, by omega⟩
      rw [attributeLoop, readAttribute_bytes hsized]
      · dsimp only
        rw [hlen, Nat.add_sub_cancel_left, append_assoc, drop_left,
          hloop context fuel behind (by omega), mapM_cons]
        cases parseAttribute context raw with
        | error e => rfl
        | ok parsed => cases raws.mapM (parseAttribute context) <;> rfl
      · omega
    · cases s with
      | nil =>
        refine ⟨[], [], [], .of_bytes (forall_mem_nil _), by simp, ?_⟩
        intro ν context fuel behind _
        cases fuel <;> rfl
      | cons first s =>
        refine ⟨[], [error], first :: s, ⟨nofun, rfl, ?_⟩, by simp, ?_⟩
        · intro raw hsized hprefix
          have hok := (@readAttribute_eq_ok _ _ _ []).mpr ⟨hsized, hprefix, rfl⟩
          rw [herror] at hok
          cases hok
        · intro ν context fuel behind hfuel
          obtain ⟨fuel, rfl⟩ : ∃ m, fuel = m + 1 := ⟨fuel - 1, by simp at hfuel; omega⟩
          rw [attributeLoop, herror]
          · rfl
          · simp

/-- A section is read alike wherever it stands. -/
theorem parsePathAttributes_section (before s behind : Buffer) :
    parsePathAttributes context (before ++ s ++ behind) before.length
        (before.length + s.length) =
      (fun parsed => (parsed.1, before.length + s.length, parsed.2)) <$>
        attributeLoop context s.length s.length (s ++ behind) := by
  rw [parsePathAttributes, if_neg (by simp), append_assoc, drop_left]
  simp only [Nat.add_sub_cancel_left]
  cases attributeLoop context s.length s.length (s ++ behind) <;> rfl

/-- A section is read as it is read alone. -/
theorem parsePathAttributes_alone (before s behind : Buffer) :
    parsePathAttributes context (before ++ s ++ behind) before.length
        (before.length + s.length) =
      (fun parsed => (parsed.1, before.length + s.length, parsed.2.2)) <$>
        parsePathAttributes context s 0 s.length := by
  obtain ⟨raws, errors, rest, -, -, hloop⟩ := exists_framing s
  have halone := @parsePathAttributes_section _ context [] s []
  rw [nil_append, append_nil, length_nil, Nat.zero_add] at halone
  have hsame := hloop context _ [] le_rfl
  rw [append_nil] at hsame
  rw [halone, parsePathAttributes_section, hloop context _ behind le_rfl, hsame]
  simp only [Functor.map_map]

/-- A context without path identifiers whose parameters accept every value. -/
def plainContext : ParseContext Unit := ⟨fun _ _ => false, none, fun _ _ => .ok ((), [])⟩

end Bgp
