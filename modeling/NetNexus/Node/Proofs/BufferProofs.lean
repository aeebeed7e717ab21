import NetNexus.Node.Buffer

/-!
# Buffers: searching, joining and decoding
-/

namespace Node

open List

variable {pattern buf : Buffer} {i : ℕ}

/-! ## `indexOf` -/

theorem indexOf_eq_none_iff (hp : pattern ≠ []) :
    indexOf pattern buf = none ↔ ∀ j, ¬ pattern <+: buf.drop j := by
  induction buf with
  | nil =>
    simp only [indexOf, if_neg hp, drop_nil, prefix_nil, true_iff]
    exact fun _ => hp
  | cons b _ ih =>
    rw [indexOf]
    split
    case isTrue h =>
      simp only [reduceCtorEq, false_iff, not_forall, not_not]
      exact ⟨0, h⟩
    case isFalse h =>
      rw [Option.map_eq_none_iff, ih]
      refine ⟨fun hno j => ?_, fun hno j => hno (j + 1)⟩
      cases j with
      | zero => exact h
      | succ j => exact hno j

theorem indexOf_eq_some_iff (hp : pattern ≠ []) :
    indexOf pattern buf = some i ↔ pattern <+: buf.drop i ∧ ∀ j < i, ¬ pattern <+: buf.drop j := by
  induction buf generalizing i with
  | nil =>
    simp only [indexOf, if_neg hp, drop_nil, prefix_nil, reduceCtorEq, false_iff]
    exact fun h => hp h.1
  | cons b _ ih =>
    rw [indexOf]
    split
    case isTrue h =>
      rw [Option.some_inj]
      refine ⟨fun hi => ⟨hi ▸ h, fun j hj => by omega⟩, fun ⟨_, hno⟩ => ?_⟩
      by_contra hi
      exact hno 0 (by omega) h
    case isFalse h =>
      rw [Option.map_eq_some_iff]
      constructor
      · rintro ⟨k, hk, rfl⟩
        obtain ⟨hpre, hno⟩ := ih.mp hk
        refine ⟨hpre, fun j hj => ?_⟩
        cases j with
        | zero => exact h
        | succ j => exact hno j (by omega)
      · rintro ⟨hpre, hno⟩
        cases i with
        | zero => exact absurd hpre h
        | succ i => exact ⟨i, ih.mpr ⟨hpre, fun j hj => hno (j + 1) (by omega)⟩, rfl⟩

theorem add_length_le_of_prefix_drop (hp : pattern ≠ []) (h : pattern <+: buf.drop i) :
    i + pattern.length ≤ buf.length := by
  have hlen := h.length_le
  have hpos := length_pos_iff.mpr hp
  rw [length_drop] at hlen
  omega

theorem prefix_drop_append_iff {more : Buffer} (h : i + pattern.length ≤ buf.length) :
    pattern <+: (buf ++ more).drop i ↔ pattern <+: buf.drop i := by
  rw [drop_append_of_le_length (by omega)]
  refine ⟨fun hpre => ?_, fun hpre => hpre.trans (prefix_append ..)⟩
  exact prefix_of_prefix_length_le hpre (prefix_append ..)
    (by rw [length_drop]; omega)

theorem indexOf_append (hp : pattern ≠ []) (h : indexOf pattern buf = some i) (more : Buffer) :
    indexOf pattern (buf ++ more) = some i := by
  obtain ⟨hpre, hno⟩ := (indexOf_eq_some_iff hp).mp h
  have hle := add_length_le_of_prefix_drop hp hpre
  refine (indexOf_eq_some_iff hp).mpr ⟨(prefix_drop_append_iff hle).mpr hpre, fun j hj => ?_⟩
  rw [prefix_drop_append_iff (by omega)]
  exact hno j hj

/-! ## Joining and decoding -/

@[simp] theorem concat_length (list : List Buffer) :
    concat list list.flatten.length = list.flatten := by
  rw [concat, Nat.sub_self, replicate_zero, List.append_nil, take_length]

@[simp] theorem utf8Decode_utf8Encode (text : String) : utf8Decode (utf8Encode text) = text := by
  have hv : ⟨text.toUTF8.data.toList.toArray⟩ = text.toByteArray := by
    rw [String.toUTF8_eq_toByteArray]
  have hvalid := text.isValidUTF8
  rw [utf8Decode, utf8Encode, hv, String.fromUTF8?, dif_pos hvalid]
  rfl

/-! ## The decoder -/

theorem utf8Encode_ofList (text : List Char) :
    utf8Encode (String.ofList text) = text.flatMap String.utf8EncodeChar := by
  simp [utf8Encode, List.utf8Encode]

variable {c : Char} {st : Utf8State} {v : ℕ} {p q : Buffer}

/-- The bytes that the decoder still asks for to complete a character. -/
inductive Completes (c : Char) : Utf8State → Buffer → Prop
  | last {codePoint lower upper : ℕ} {b : UInt8} (hb : lower ≤ b.toNat ∧ b.toNat ≤ upper)
      (hc : Char.ofNat (codePoint * 0x40 + b.toNat % 0x40) = c) :
      Completes c ⟨1, codePoint, lower, upper⟩ [b]
  | more {n codePoint lower upper : ℕ} {b : UInt8} {bytes : Buffer}
      (hb : lower ≤ b.toNat ∧ b.toNat ≤ upper)
      (h : Completes c ⟨n + 1, codePoint * 0x40 + b.toNat % 0x40, 0x80, 0xBF⟩ bytes) :
      Completes c ⟨n + 2, codePoint, lower, upper⟩ (b :: bytes)

namespace Completes

theorem utf8Lossy (h : Completes c st q) (rest : Buffer) :
    Node.utf8Lossy (some st) (q ++ rest) = c :: Node.utf8Lossy none rest := by
  induction h with
  | last hb hc => rw [singleton_append, Node.utf8Lossy, if_pos hb, if_pos rfl, hc]
  | more hb _ ih =>
    rw [cons_append, Node.utf8Lossy, if_pos hb]
    exact ih

/-- On the way the decoder asks for the bytes that are left. -/
theorem rest (h : Completes c st (p ++ q)) (hq : q ≠ []) :
    ∃ st', (∀ rest, Node.utf8Lossy (some st) (p ++ rest) = Node.utf8Lossy (some st') rest) ∧
      Completes c st' q := by
  induction p generalizing st with
  | nil => exact ⟨st, fun _ => rfl, h⟩
  | cons b p ih =>
    rw [cons_append] at h
    generalize hbytes : p ++ q = bytes at h
    cases h with
    | last => exact absurd (append_eq_nil_iff.mp hbytes).2 hq
    | more hb h =>
      subst hbytes
      obtain ⟨st', hst, hrest⟩ := ih h
      refine ⟨st', fun rest => ?_, hrest⟩
      rw [cons_append, Node.utf8Lossy, if_pos hb]
      exact hst rest

end Completes

theorem utf8Lead_three (h : 0x7ff < v ∧ v ≤ 0xffff) (hv : v < 0xD800 ∨ 0xDFFF < v) :
    ∃ lower upper, utf8Lead (v / 4096 % 16 + 224) = ([], some ⟨2, v / 4096, lower, upper⟩) ∧
      lower ≤ v / 64 % 64 + 128 ∧ v / 64 % 64 + 128 ≤ upper := by
  have hpoint : (v / 4096 % 16 + 224) % 0x10 = v / 4096 := by omega
  rw [utf8Lead, hpoint, if_neg (by omega), if_neg (by omega)]
  split_ifs <;> first | exact ⟨_, _, rfl, by omega, by omega⟩ | omega

theorem utf8Lead_four (h : 0xffff < v) (hv : v < 0x110000) :
    ∃ lower upper, utf8Lead (v / 262144 % 8 + 240) = ([], some ⟨3, v / 262144, lower, upper⟩) ∧
      lower ≤ v / 4096 % 64 + 128 ∧ v / 4096 % 64 + 128 ≤ upper := by
  have hpoint : (v / 262144 % 8 + 240) % 0x08 = v / 262144 := by omega
  rw [utf8Lead, hpoint, if_neg (by omega), if_neg (by omega), if_neg (by omega), if_neg (by omega),
    if_neg (by omega)]
  split_ifs <;> first | exact ⟨_, _, rfl, by omega, by omega⟩ | omega

/-- An ASCII character is one byte, and the first byte of another asks for the others. -/
theorem utf8EncodeChar_cases (c : Char) :
    (∃ b : UInt8, b.toNat < 0x80 ∧ String.utf8EncodeChar c = [b] ∧ c = Char.ofNat b.toNat) ∨
      ∃ b st bytes, String.utf8EncodeChar c = b :: bytes ∧
        utf8Lead b.toNat = ([], some st) ∧ Completes c st bytes ∧
        ∀ b ∈ bytes, 0x80 ≤ b.toNat ∧ b.toNat ≤ 0xBF := by
  obtain ⟨v, hv⟩ : ∃ v, c.toNat = v := ⟨_, rfl⟩
  have hvalid : v < 0xD800 ∨ 0xDFFF < v ∧ v < 0x110000 := hv ▸ c.valid
  obtain rfl : Char.ofNat v = c := by rw [← hv, Char.ofNat_toNat]
  have hval : (Char.ofNat v).val.toNat = v := hv
  have hbyte (n : ℕ) : (UInt8.ofNat (n % 64 + 128)).toNat = n % 64 + 128 := by
    rw [UInt8.toNat_ofNat', Nat.mod_eq_of_lt (by omega)]
  have hcont (n : ℕ) : 0x80 ≤ (UInt8.ofNat (n % 64 + 128)).toNat ∧
      (UInt8.ofNat (n % 64 + 128)).toNat ≤ 0xBF := by
    rw [hbyte]
    omega
  rw [String.utf8EncodeChar, hval]
  split_ifs with h₁ h₂ h₃
  · have hsmall : (UInt8.ofNat v).toNat = v := by
      rw [UInt8.toNat_ofNat', Nat.mod_eq_of_lt (by omega)]
    exact Or.inl ⟨_, by omega, rfl, by rw [hsmall]⟩
  · refine Or.inr ⟨_, ⟨1, v / 64, 0x80, 0xBF⟩, _, rfl, ?_, .last (hcont _) ?_, ?_⟩
    · rw [UInt8.toNat_ofNat', Nat.mod_eq_of_lt (by omega), utf8Lead, if_neg (by omega),
        if_pos (by omega), show (v / 64 % 32 + 192) % 0x20 = v / 64 by omega]
    · rw [hbyte]
      congr 1
      omega
    · exact forall_mem_singleton.mpr (hcont _)
  · obtain ⟨lower, upper, hlead, hlow, hup⟩ := utf8Lead_three ⟨by omega, h₃⟩ (by omega : v < _ ∨ _)
    refine Or.inr ⟨_, ⟨2, v / 4096, lower, upper⟩, _, rfl, ?_,
      .more (by rw [hbyte]; exact ⟨hlow, hup⟩) (.last (hcont _) ?_), ?_⟩
    · rw [UInt8.toNat_ofNat', Nat.mod_eq_of_lt (by omega), hlead]
    · rw [hbyte, hbyte]
      congr 1
      omega
    · exact forall_mem_cons.mpr ⟨hcont _, forall_mem_singleton.mpr (hcont _)⟩
  · obtain ⟨lower, upper, hlead, hlow, hup⟩ := utf8Lead_four (by omega : 0xffff < v) (by omega)
    refine Or.inr ⟨_, ⟨3, v / 262144, lower, upper⟩, _, rfl, ?_,
      .more (by rw [hbyte]; exact ⟨hlow, hup⟩) (.more (hcont _) (.last (hcont _) ?_)), ?_⟩
    · rw [UInt8.toNat_ofNat', Nat.mod_eq_of_lt (by omega), hlead]
    · rw [hbyte, hbyte, hbyte]
      congr 1
      omega
    · exact forall_mem_cons.mpr ⟨hcont _, forall_mem_cons.mpr
        ⟨hcont _, forall_mem_singleton.mpr (hcont _)⟩⟩

theorem utf8Lossy_utf8EncodeChar (c : Char) (rest : Buffer) :
    utf8Lossy none (String.utf8EncodeChar c ++ rest) = c :: utf8Lossy none rest := by
  rcases utf8EncodeChar_cases c with ⟨b, hb, hbytes, hc⟩ | ⟨b, st, bytes, hbytes, hlead, hst, -⟩
  · rw [hbytes, singleton_append, utf8Lossy, utf8Lead, if_pos (by omega), hc]
    rfl
  · rw [hbytes, cons_append, utf8Lossy, hlead]
    exact hst.utf8Lossy rest

theorem utf8Lossy_flatMap (text : List Char) (rest : Buffer) :
    utf8Lossy none (text.flatMap String.utf8EncodeChar ++ rest) = text ++ utf8Lossy none rest := by
  induction text with
  | nil => rfl
  | cons c _ ih => rw [flatMap_cons, append_assoc, utf8Lossy_utf8EncodeChar, ih, cons_append]

theorem toList_utf8Decode (buf : Buffer) : (utf8Decode buf).toList = utf8Lossy none buf := by
  by_cases htext : ∃ text : String, utf8Encode text = buf
  · obtain ⟨text, rfl⟩ := htext
    have hlossy := utf8Lossy_flatMap text.toList []
    rw [append_nil, ← utf8Encode_ofList, String.ofList_toList, utf8Lossy, append_nil] at hlossy
    rw [utf8Decode_utf8Encode, hlossy]
  · have hnone : String.fromUTF8? ⟨buf.toArray⟩ = none := by
      rw [String.fromUTF8?, dif_neg]
      exact fun hvalid => htext ⟨⟨_, hvalid⟩, rfl⟩
    rw [utf8Decode, hnone, Option.getD_none, String.toList_ofList]

theorem utf8Lossy_continuation {bytes : Buffer}
    (h : ∀ b ∈ bytes, 0x80 ≤ b.toNat ∧ b.toNat ≤ 0xBF) (rest : Buffer) :
    utf8Lossy none (bytes ++ rest) =
      replicate bytes.length replacementChar ++ utf8Lossy none rest := by
  induction bytes with
  | nil => rfl
  | cons b _ ih =>
    obtain ⟨_, _⟩ := h b mem_cons_self
    rw [cons_append, utf8Lossy, utf8Lead]
    repeat rw [if_neg (by omega)]
    exact congrArg _ (ih fun b hb => h b (mem_cons_of_mem _ hb))

/-- The bytes of a character that is cut stand for a replacement character in front of the cut,
and each for one behind it. -/
theorem utf8Lossy_cut (hc : String.utf8EncodeChar c = p ++ q) (hp : p ≠ []) (hq : q ≠ []) :
    utf8Lossy none p = [replacementChar] ∧ ∀ b ∈ q, 0x80 ≤ b.toNat ∧ b.toNat ≤ 0xBF := by
  obtain ⟨first, p, rfl⟩ := exists_cons_of_ne_nil hp
  rcases utf8EncodeChar_cases c with ⟨b, -, hbytes, -⟩ | ⟨b, st, bytes, hbytes, hlead, hst, hcont⟩
  · rw [hbytes, cons_append, cons.injEq] at hc
    exact absurd (append_eq_nil_iff.mp hc.2.symm).2 hq
  · rw [hbytes, cons_append, cons.injEq] at hc
    obtain ⟨rfl, rfl⟩ := hc
    obtain ⟨_, hst', -⟩ := hst.rest hq
    have hend := hst' []
    rw [append_nil] at hend
    refine ⟨?_, fun b hb => hcont b (mem_append_right _ hb)⟩
    rw [utf8Lossy, hlead]
    exact hend

/-- The bytes of a text in two parts, of which the first is some of the first character. -/
inductive Cut : List Char → Buffer → Buffer → Prop
  | whole (text : List Char) : Cut text [] (text.flatMap String.utf8EncodeChar)
  | inside {c : Char} {p q : Buffer} (text : List Char) (hc : String.utf8EncodeChar c = p ++ q)
      (hp : p ≠ []) (hq : q ≠ []) : Cut (c :: text) p (q ++ text.flatMap String.utf8EncodeChar)

/-- Some bytes of a text are whole characters and the first bytes of another. -/
theorem exists_cut {text : List Char} {a b : Buffer}
    (h : a ++ b = text.flatMap String.utf8EncodeChar) :
    ∃ front back p, text = front ++ back ∧ a = front.flatMap String.utf8EncodeChar ++ p ∧
      Cut back p b := by
  induction text generalizing a with
  | nil =>
    obtain ⟨rfl, rfl⟩ := append_eq_nil_iff.mp h
    exact ⟨[], [], [], rfl, rfl, .whole []⟩
  | cons c text ih =>
    obtain ⟨q, hc, rfl⟩ | ⟨more, rfl, hmore⟩ := append_eq_append_iff.mp h
    · by_cases ha : a = []
      · subst ha
        rw [nil_append] at hc
        exact ⟨[], c :: text, [], rfl, rfl, hc ▸ .whole (c :: text)⟩
      by_cases hq : q = []
      · subst hq
        exact ⟨[c], text, [], rfl, by simp [hc], .whole text⟩
      · exact ⟨[], c :: text, a, rfl, rfl, .inside text hc ha hq⟩
    · obtain ⟨front, back, p, rfl, rfl, hcut⟩ := ih hmore.symm
      exact ⟨c :: front, back, p, rfl, by simp, hcut⟩

/-- The bytes in front of an ASCII byte of a text are a text. -/
theorem utf8Encode_utf8Decode {text : List Char} {rest : Buffer} {b : UInt8} (hb : b.toNat < 0x80)
    (h : utf8Encode (String.ofList text) = buf ++ b :: rest) :
    utf8Encode (utf8Decode buf) = buf := by
  rw [utf8Encode_ofList] at h
  generalize hbytes : b :: rest = bytes at h
  obtain ⟨front, back, p, -, rfl, hcut⟩ := exists_cut h.symm
  cases hcut with
  | whole => rw [append_nil, ← utf8Encode_ofList, utf8Decode_utf8Encode]
  | inside _ hc hp hq =>
    obtain ⟨first, q, rfl⟩ := exists_cons_of_ne_nil hq
    obtain ⟨rfl, -⟩ := cons.inj hbytes
    have hcont := (utf8Lossy_cut hc hp hq).2 b mem_cons_self
    omega

end Node
