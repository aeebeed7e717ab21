import NetNexus.Dhcp6.Address
import NetNexus.Ip.Proofs.IpUtilsProofs
import NetNexus.Node.Proofs.NumberProofs

/-!
# Addresses as numbers and as texts

A buffer of sixteen bytes counts as the number that it reads, and its text reads back to it.
-/

namespace Dhcp6

open List Node

/-! ## Numbers -/

theorem compareBuffers_eq (a b : Buffer) (h : a.length = b.length) :
    compareBuffers a b = compare (ofBytes a) (ofBytes b) := by
  induction a generalizing b with
  | nil =>
    cases b with
    | nil => rfl
    | cons b _ => cases h
  | cons a as ih =>
    cases b with
    | nil => cases h
    | cons b bs =>
      have hlen : as.length = bs.length := Nat.succ_inj.mp h
      unfold compareBuffers
      by_cases hlt : a < b
      · rw [if_pos hlt, eq_comm, Nat.compare_eq_lt]
        exact ofBytes_cons_lt hlen hlt
      · rw [if_neg hlt]
        by_cases hgt : b < a
        · rw [if_pos hgt, eq_comm, Nat.compare_eq_gt]
          exact ofBytes_cons_lt hlen.symm hgt
        · have heq : a = b := UInt8.le_antisymm (UInt8.not_lt.mp hgt) (UInt8.not_lt.mp hlt)
          rw [ih bs hlen, ofBytes_cons, ofBytes_cons, heq, hlen]
          simp [Nat.compare_eq_ite_lt]

theorem length_incrementBytes (bytes : Buffer) : (incrementBytes bytes).length = bytes.length := by
  induction bytes with
  | nil => rfl
  | cons b _ ih =>
    unfold incrementBytes
    split
    · rfl
    · rw [length_cons, length_cons, ih]

@[simp]
theorem length_incrementIpv6 (buf : Buffer) : (incrementIpv6 buf).length = buf.length := by
  simp [incrementIpv6, length_incrementBytes]

/-- The loop stops where no carry is left. -/
theorem ofBytes_incrementBytes (bytes : Buffer) : ofBytes (incrementBytes bytes).reverse =
    (ofBytes bytes.reverse + 1) % 256 ^ bytes.length := by
  induction bytes with
  | nil => rfl
  | cons b rest ih =>
    have hb := b.toNat_lt
    have hrest : ofBytes rest.reverse < 256 ^ rest.length := by
      simpa using ofBytes_lt rest.reverse
    have hpow : 256 ^ (b :: rest).length = 256 * 256 ^ rest.length := by
      rw [length_cons, Nat.pow_succ, Nat.mul_comm]
    unfold incrementBytes
    rw [reverse_cons, ofBytes_append_singleton, hpow]
    by_cases hlt : b < 255
    · have hlt' : b.toNat < 255 := UInt8.lt_iff_toNat_lt.mp hlt
      have hsucc : (b + 1).toNat = b.toNat + 1 :=
        Nat.mod_eq_of_lt (by show b.toNat + 1 < 256; omega)
      rw [if_pos hlt, reverse_cons, ofBytes_append_singleton, eq_comm]
      refine (Nat.mod_eq_of_lt ?_).trans (by omega)
      omega
    · have heq : b.toNat = 255 := by
        have hnot : ¬ b.toNat < 255 := fun h => hlt (UInt8.lt_iff_toNat_lt.mpr h)
        omega
      rw [if_neg hlt, reverse_cons, ofBytes_append_singleton, ih, heq]
      have hbase : 2 ^ 8 = 256 := rfl
      have hcarry : ofBytes rest.reverse * 256 + 255 + 1 = 256 * (ofBytes rest.reverse + 1) := by
        omega
      rw [hbase, hcarry, Nat.mul_mod_mul_left, UInt8.toNat_zero, Nat.add_zero, Nat.mul_comm]

theorem ofBytes_incrementIpv6 (buf : Buffer) :
    ofBytes (incrementIpv6 buf) = (ofBytes buf + 1) % 256 ^ buf.length := by
  have h := ofBytes_incrementBytes buf.reverse
  rwa [reverse_reverse, length_reverse] at h

/-! ## The longest run of zeros -/

/-- What the loop knows after the groups that it has seen. -/
structure Zeros.Inv (zeros : Zeros) (seen : List ℕ) : Prop where
  best : (seen.drop zeros.bestStart).take zeros.bestLen = List.replicate zeros.bestLen 0
  bestLe : zeros.bestStart + zeros.bestLen ≤ seen.length
  cur : (seen.drop zeros.curStart).take zeros.curLen = List.replicate zeros.curLen 0
  curEnd : 0 < zeros.curLen → zeros.curStart + zeros.curLen = seen.length

variable {zeros : Zeros} {seen : List ℕ}

theorem Zeros.Inv.curStart_add (h : zeros.Inv seen) :
    (if zeros.curLen = 0 then seen.length else zeros.curStart) + zeros.curLen = seen.length := by
  split_ifs with hzero
  · rw [hzero, Nat.add_zero]
  · exact h.curEnd (Nat.pos_of_ne_zero hzero)

theorem Zeros.Inv.next (h : zeros.Inv seen) (group : ℕ) :
    (zeros.next seen.length group).Inv (seen ++ [group]) := by
  have hlen : (seen ++ [group]).length = seen.length + 1 := by simp
  have hbest : ((seen ++ [group]).drop zeros.bestStart).take zeros.bestLen =
      List.replicate zeros.bestLen 0 := by
    have hle := h.bestLe
    rw [drop_append_of_le_length (by omega), take_append_of_le_length (by rw [length_drop]; omega)]
    exact h.best
  have hbestLe : zeros.bestStart + zeros.bestLen ≤ (seen ++ [group]).length := by
    have hle := h.bestLe
    omega
  unfold Zeros.next
  split
  · rename_i hg
    -- the run that the loop is in has one zero more
    obtain ⟨curStart, hcurStart⟩ : ∃ start, start =
        if zeros.curLen = 0 then seen.length else zeros.curStart := ⟨_, rfl⟩
    have hend : curStart + zeros.curLen = seen.length := hcurStart ▸ h.curStart_add
    have hold : seen.drop curStart = List.replicate zeros.curLen 0 := by
      by_cases hzero : zeros.curLen = 0
      · rw [hzero]
        exact drop_eq_nil_of_le (by omega)
      · have hcur := h.cur
        rw [hcurStart, if_neg hzero] at hend ⊢
        rwa [take_of_length_le (by rw [length_drop]; omega)] at hcur
    have hcur : ((seen ++ [group]).drop curStart).take (zeros.curLen + 1) =
        List.replicate (zeros.curLen + 1) 0 := by
      rw [drop_append_of_le_length (by omega), hold, hg, ← replicate_succ',
        take_of_length_le (by simp)]
    have hcurEnd : curStart + (zeros.curLen + 1) = (seen ++ [group]).length := by omega
    dsimp only
    rw [← hcurStart]
    split
    · exact ⟨hcur, hcurEnd.le, hcur, fun _ => hcurEnd⟩
    · exact ⟨hbest, hbestLe, hcur, fun _ => hcurEnd⟩
  · exact ⟨hbest, hbestLe, by simp, nofun⟩

/-- Zero groups, `len` of them from `start` on. -/
def ZeroRun (groups : List ℕ) (start len : ℕ) : Prop :=
  (groups.drop start).take len = List.replicate len 0

/-- No run of zeros is longer than the one that was found, or as long and before it. -/
structure Zeros.Longest (zeros : Zeros) (seen : List ℕ) : Prop where
  best : ∀ start len, ZeroRun seen start len →
    len ≤ zeros.bestLen ∧ (len = zeros.bestLen → zeros.bestStart ≤ start)
  cur : ∀ start len, ZeroRun seen start len → start + len = seen.length → len ≤ zeros.curLen

theorem ZeroRun.of_append {group start len : ℕ} (h : ZeroRun (seen ++ [group]) start len) :
    ZeroRun seen start len ∧ (len = 0 ∨ start + len ≤ seen.length) ∨
      group = 0 ∧ ∃ before, len = before + 1 ∧ ZeroRun seen start before ∧
        start + before = seen.length := by
  have hlen := congrArg List.length h
  rw [length_take, length_drop, length_append, length_replicate, length_singleton] at hlen
  cases len with
  | zero => exact .inl ⟨rfl, .inl rfl⟩
  | succ before =>
    unfold ZeroRun at h ⊢
    rw [drop_append_of_le_length (by omega)] at h
    rcases Nat.lt_or_ge seen.length (start + (before + 1)) with hlt | hge
    · rw [take_of_length_le (by simp; omega), replicate_succ'] at h
      obtain ⟨hrun, hg⟩ := append_inj' h rfl
      refine .inr ⟨singleton_inj.mp hg, before, rfl, ?_, by omega⟩
      rw [hrun, take_replicate, Nat.min_self]
    · rw [take_append_of_le_length (by rw [length_drop]; omega)] at h
      exact .inl ⟨h, .inr hge⟩

theorem Zeros.Longest.next (h : zeros.Longest seen) (hinv : zeros.Inv seen) (group : ℕ) :
    (zeros.next seen.length group).Longest (seen ++ [group]) := by
  have hle := hinv.bestLe
  have hend := hinv.curStart_add
  unfold Zeros.next
  split
  · constructor
    all_goals
      intro start len hrun
      rcases hrun.of_append with ⟨hold, hin⟩ | ⟨-, before, rfl, hold, hlast⟩
      · have hbest := h.best start len hold
        grind
      · have hcur := h.cur start before hold hlast
        grind
  · rename_i hg
    constructor
    all_goals
      intro start len hrun
      rcases hrun.of_append with ⟨hold, hin⟩ | ⟨hzero, -⟩
      · have hbest := h.best start len hold
        grind
      · exact absurd hzero hg

variable (groups : List ℕ)

theorem findZeros_append (group : ℕ) :
    findZeros (groups ++ [group]) = (findZeros groups).next groups.length group := by
  unfold findZeros
  rw [zipIdx_append]
  simp

theorem findZeros_inv : (findZeros groups).Inv groups := by
  induction groups using List.reverseRecOn with
  | nil => exact ⟨rfl, Nat.le_refl 0, rfl, nofun⟩
  | append_singleton _ group ih =>
    rw [findZeros_append]
    exact ih.next group

theorem findZeros_longest : (findZeros groups).Longest groups := by
  induction groups using List.reverseRecOn with
  | nil =>
    have hnil : ∀ start len, ZeroRun [] start len → len = 0 := by simp [ZeroRun]
    exact ⟨fun start len h => ⟨(hnil start len h).le, fun _ => Nat.zero_le _⟩,
      fun start len h _ => (hnil start len h).le⟩
  | append_singleton groups group ih =>
    rw [findZeros_append]
    exact ih.next (findZeros_inv groups) group

/-- The groups before, in and behind the longest run. -/
theorem groups_eq : groups = groups.take (findZeros groups).bestStart ++
    List.replicate (findZeros groups).bestLen 0 ++
    groups.drop ((findZeros groups).bestStart + (findZeros groups).bestLen) := by
  have hbest := (findZeros_inv groups).best
  rw [← hbest, ← take_add, take_append_drop]

/-! ## Texts -/

theorem joinHex_cons (group : ℕ) (groups : List ℕ) : joinHex (group :: groups) =
    Nat.toDigits 16 group ++ groups.flatMap fun group => ':' :: Nat.toDigits 16 group := by
  induction groups generalizing group with
  | nil => simp [joinHex]
  | cons second _ ih =>
    have hsnd := ih second
    unfold joinHex at hsnd ⊢
    rw [map_cons, map_cons, intercalate_cons_cons, ← map_cons, hsnd]
    simp

variable {c : Char}

theorem not_mem_toDigits (h : hexValue c = none) (n : ℕ) : c ∉ Nat.toDigits 16 n :=
  fun hmem => Ip.hexValue_of_mem_toDigits (by decide) (by decide) hmem h

theorem not_mem_joinHex (h : hexValue c = none) (hne : c ≠ ':') (groups : List ℕ) :
    c ∉ joinHex groups := by
  cases groups with
  | nil => exact not_mem_nil
  | cons group _ =>
    rw [joinHex_cons, mem_append, mem_flatMap]
    rintro (hmem | ⟨other, -, hmem⟩)
    · exact not_mem_toDigits h group hmem
    · rcases mem_cons.mp hmem with rfl | hdigit
      · exact hne rfl
      · exact not_mem_toDigits h other hdigit

section

variable {rest part : List Char} {parts : List (List Char)}
  (h : splitDouble rest = part :: parts)

include h

theorem splitDouble_cons (hc : c ≠ ':') : splitDouble (c :: rest) = (c :: part) :: parts := by
  rw [splitDouble, h]
  exact fun _ heq => absurd heq hc

theorem splitDouble_append {text : List Char} (htext : ':' ∉ text) :
    splitDouble (text ++ rest) = (text ++ part) :: parts := by
  induction text with
  | nil => exact h
  | cons c _ ih =>
    rw [mem_cons, not_or] at htext
    exact splitDouble_cons (ih htext.2) (Ne.symm htext.1)

theorem splitDouble_colon (group : ℕ) : splitDouble (':' :: Nat.toDigits 16 group ++ rest) =
      (':' :: Nat.toDigits 16 group ++ part) :: parts := by
  have hcol : ':' ∉ Nat.toDigits 16 group := not_mem_toDigits (by decide) group
  have happ := splitDouble_append h hcol
  obtain ⟨c, _, hdigs⟩ := exists_cons_of_ne_nil Nat.toDigits_ne_nil
  rw [hdigs] at hcol happ ⊢
  have hc : c ≠ ':' := fun heq => hcol (heq ▸ mem_cons_self)
  rw [cons_append, cons_append] at happ ⊢
  rw [splitDouble, happ]
  · rfl
  · rintro _ - heq
    exact hc (List.cons.inj heq).1

theorem splitDouble_flatMap :
    splitDouble ((groups.flatMap fun group => ':' :: Nat.toDigits 16 group) ++ rest) =
      ((groups.flatMap fun group => ':' :: Nat.toDigits 16 group) ++ part) :: parts := by
  induction groups with
  | nil => exact h
  | cons group _ ih =>
    rw [flatMap_cons, append_assoc, append_assoc]
    exact splitDouble_colon ih group

theorem splitDouble_joinHex :
    splitDouble (joinHex groups ++ rest) = (joinHex groups ++ part) :: parts := by
  cases groups with
  | nil => exact h
  | cons group groups =>
    rw [joinHex_cons, append_assoc, append_assoc]
    exact splitDouble_append (splitDouble_flatMap groups h) (not_mem_toDigits (by decide) group)

end

theorem splitDouble_joinHex_self : splitDouble (joinHex groups) = [joinHex groups] := by
  have h := splitDouble_joinHex groups (show splitDouble [] = [] :: [] from rfl)
  rwa [List.append_nil] at h

theorem splitDouble_halves (left right : List ℕ) :
    splitDouble (joinHex left ++ [':', ':'] ++ joinHex right) = [joinHex left, joinHex right] := by
  have hrest : splitDouble ([':', ':'] ++ joinHex right) = [] :: [joinHex right] := by
    rw [← splitDouble_joinHex_self]
    rfl
  rw [append_assoc, splitDouble_joinHex left hrest, List.append_nil]

variable {groups : List ℕ}

theorem joinHex_eq_nil : joinHex groups = [] ↔ groups = [] := by
  cases groups with
  | nil => exact ⟨fun _ => rfl, fun _ => rfl⟩
  | cons _ _ =>
    rw [joinHex_cons, append_eq_nil_iff]
    exact ⟨fun h => absurd h.1 Nat.toDigits_ne_nil, nofun⟩

theorem splitOn_joinHex (hne : groups ≠ []) :
    (joinHex groups).splitOn ':' = groups.map (Nat.toDigits 16) := by
  refine splitOn_intercalate ':' ?_ (by simpa using hne)
  intro digits hdigs
  obtain ⟨n, -, rfl⟩ := mem_map.mp hdigs
  exact not_mem_toDigits (by decide) n

theorem isHexGroup_toDigits {n : ℕ} (h : n < 2 ^ 16) : isHexGroup (Nat.toDigits 16 n) = true := by
  have hlen : (Nat.toDigits 16 n).length ≤ 4 :=
    (Nat.length_toDigits_le_iff (by decide) (by decide)).mpr h
  have hdigs : ∀ c ∈ Nat.toDigits 16 n, (hexValue c).isSome = true := fun c hc =>
    Option.isSome_iff_ne_none.mpr (Ip.hexValue_of_mem_toDigits (by decide) (by decide) hc)
  unfold isHexGroup
  simp only [Bool.and_eq_true, decide_eq_true_eq, all_eq_true]
  exact ⟨⟨Nat.toDigits_ne_nil, hlen⟩, hdigs⟩

theorem countGroups_joinHex (embedded : Bool) (h : ∀ n ∈ groups, n < 2 ^ 16) :
    countGroups embedded (joinHex groups) = some groups.length := by
  unfold countGroups
  by_cases hnil : groups = []
  · rw [hnil]
    rfl
  · have hall : (groups.map (Nat.toDigits 16)).all isHexGroup = true := by
      rw [all_eq_true]
      intro digits hdigs
      obtain ⟨n, hn, rfl⟩ := mem_map.mp hdigs
      exact isHexGroup_toDigits (h n hn)
    rw [if_neg (mt joinHex_eq_nil.mp hnil), splitOn_joinHex hnil, if_pos hall, length_map]

theorem isIPv6_of_not_mem {text : List Char} (h : '%' ∉ text) :
    isIPv6 text = match splitDouble text with
      | [whole] => decide (countGroups true whole = some 8)
      | [left, right] =>
        ((countGroups false left).bind fun l => (countGroups true right).map (l + ·)).any (· ≤ 7)
      | _ => false := by
  have htake : text.takeWhile (· ≠ '%') = text := by
    rw [takeWhile_eq_self_iff]
    intro c hc
    exact decide_eq_true fun heq => h (heq ▸ hc)
  have hdrop : text.dropWhile (· ≠ '%') = [] := by
    rw [dropWhile_eq_nil_iff]
    intro c hc
    exact decide_eq_true fun heq => h (heq ▸ hc)
  unfold isIPv6
  rw [htake, hdrop]
  rfl

theorem parseHex_eq {group : List Char} (h : isHexGroup group = true) :
    parseHex group = Ip.readDigits 16 group := by
  unfold isHexGroup at h
  rw [Bool.and_eq_true, all_eq_true] at h
  rw [parseHex, takeWhile_eq_self_iff.mpr h.2]
  rfl

theorem split_joinHex : (if joinHex groups = [] then [] else (joinHex groups).splitOn ':') =
    groups.map (Nat.toDigits 16) := by
  by_cases hnil : groups = []
  · rw [hnil]
    rfl
  · rw [if_neg (mt joinHex_eq_nil.mp hnil), splitOn_joinHex hnil]

theorem isIPv6_groupsText (hlen : groups.length = 8) (h : ∀ n ∈ groups, n < 2 ^ 16) :
    isIPv6 (groupsText groups) = true := by
  have hperc : ∀ part, '%' ∉ joinHex part := not_mem_joinHex (by decide) (by decide)
  unfold groupsText
  dsimp only
  split
  · have hend := (findZeros_inv groups).bestLe
    rw [isIPv6_of_not_mem, splitDouble_halves]
    · dsimp only
      rw [countGroups_joinHex false fun n hn => h n (mem_of_mem_take hn),
        countGroups_joinHex true fun n hn => h n (mem_of_mem_drop hn)]
      simp only [Option.bind_some, Option.map_some, Option.any_some, decide_eq_true_eq,
        length_take, length_drop]
      omega
    · simp only [mem_append, not_or]
      exact ⟨⟨hperc _, by decide⟩, hperc _⟩
  · rw [isIPv6_of_not_mem (hperc groups), splitDouble_joinHex_self]
    dsimp only
    rw [countGroups_joinHex true h, hlen, decide_eq_true_eq]

theorem expandGroups_groupsText (hlen : groups.length = 8) :
    expandGroups (groupsText groups) = groups.map (Nat.toDigits 16) := by
  unfold groupsText
  dsimp only
  split
  · have hend := (findZeros_inv groups).bestLe
    have hfill : 8 - (groups.take (findZeros groups).bestStart).length -
        (groups.drop ((findZeros groups).bestStart + (findZeros groups).bestLen)).length =
        (findZeros groups).bestLen := by
      rw [length_take, length_drop]
      omega
    unfold expandGroups
    rw [splitDouble_halves]
    dsimp only
    rw [split_joinHex, split_joinHex, length_map, length_map, hfill]
    conv_rhs => rw [groups_eq groups]
    rw [map_append, map_append, map_replicate]
    rfl
  · unfold expandGroups
    rw [splitDouble_joinHex_self]
    exact splitOn_joinHex fun hnil => by rw [hnil] at hlen; cases hlen

/-! ## Buffers -/

theorem length_segments : ∀ buf : Buffer, (Ip.segments buf).length = buf.length / 2
  | [] => rfl
  | [_] => by simp [Ip.segments]
  | a :: b :: rest => by
    rw [Ip.segments, length_cons, length_segments rest, length_cons, length_cons]
    omega

theorem segments_lt : ∀ buf : Buffer, ∀ group ∈ Ip.segments buf, group < 2 ^ 16
  | [] | [_] => nofun
  | a :: b :: rest => by
    intro group hmem
    rcases mem_cons.mp hmem with rfl | hrest
    · have ha := a.toNat_lt
      have hb := b.toNat_lt
      omega
    · exact segments_lt rest group hrest

theorem flatMap_segments : ∀ buf : Buffer, buf.length % 2 = 0 →
    (Ip.segments buf).flatMap uint16be = buf
  | [], _ => rfl
  | [_], h => absurd h (by simp)
  | a :: b :: rest, h => by
    have hb := b.toNat_lt
    have hhigh : UInt8.ofNat ((a.toNat * 256 + b.toNat) / 2 ^ 8) = a := by
      rw [show _ / 2 ^ 8 = a.toNat by omega, UInt8.ofNat_toNat]
    have hlow : UInt8.ofNat (a.toNat * 256 + b.toNat) = b := by
      refine UInt8.toNat_inj.mp ?_
      rw [UInt8.toNat_ofNat']
      omega
    show uint16be _ ++ (Ip.segments rest).flatMap uint16be = _
    rw [flatMap_segments rest ((Nat.add_mod_right _ 2).symm.trans h), uint16be, hhigh, hlow]
    rfl

theorem flatMap_range {parts : List (List Char)} (hlen : parts.length = 8) :
    ((List.range 8).flatMap fun i => uint16be (parseHex (parts.getD i ['0']))) =
      (parts.map parseHex).flatMap uint16be := by
  match parts, hlen with
  | [a, b, c, d, e, g, i, j], _ => rfl

theorem map_parseHex {parts : List (List Char)} (h : ∀ part ∈ parts, isHexGroup part = true) :
    parts.map parseHex = parts.map (Ip.readDigits 16) :=
  map_congr_left fun part hpart => parseHex_eq (h part hpart)

theorem ipv6ToBuffer_bufferToIpv6 {buf : Buffer} (h : buf.length = 16) :
    ipv6ToBuffer (bufferToIpv6 buf) = some buf := by
  have hlen : (Ip.segments buf).length = 8 := by rw [length_segments, h]
  have hhex : ∀ group ∈ (Ip.segments buf).map (Nat.toDigits 16), isHexGroup group = true := by
    intro group hg
    obtain ⟨n, hn, rfl⟩ := mem_map.mp hg
    exact isHexGroup_toDigits (segments_lt buf n hn)
  have hread : Ip.readDigits 16 ∘ Nat.toDigits 16 = id :=
    funext (Ip.readDigits_toDigits (by decide) (by decide))
  unfold ipv6ToBuffer bufferToIpv6
  rw [if_pos (isIPv6_groupsText hlen (segments_lt buf)), expandGroups_groupsText hlen,
    flatMap_range (by rw [length_map, hlen]), map_parseHex hhex, map_map, hread, map_id,
    flatMap_segments buf (by rw [h])]

theorem length_ipv6ToBuffer {addr : List Char} {buf : Buffer} (h : ipv6ToBuffer addr = some buf) :
    buf.length = 16 := by
  unfold ipv6ToBuffer at h
  split at h
  · cases h
    rfl
  · cases h

/-! ## Texts of other writers -/

/-- The two groups of a dotted quad. -/
def quadGroups (quad : List Char) : List ℕ :=
  match (quad.splitOn '.').map (Ip.readDigits 10) with
  | [a, b, c, d] => [a * 256 + b, c * 256 + d]
  | _ => []

/-- The groups that a part of a text denotes, which may end in a dotted quad. -/
inductive PartDenotes : List (List Char) → List ℕ → Prop where
  | hex {parts : List (List Char)} (hhex : ∀ part ∈ parts, isHexGroup part = true) :
      PartDenotes parts (parts.map (Ip.readDigits 16))
  | quad {parts : List (List Char)} {quad : List Char}
      (hhex : ∀ part ∈ parts, isHexGroup part = true) (hquad : isIPv4 quad = true) :
      PartDenotes (parts ++ [quad]) (parts.map (Ip.readDigits 16) ++ quadGroups quad)

/-- The eight groups that a text denotes. -/
inductive Denotes : List Char → List ℕ → Prop where
  | whole {parts : List (List Char)} {groups : List ℕ} (h : PartDenotes parts groups)
      (hlen : groups.length = 8) : Denotes ([':'].intercalate parts) groups
  | compressed {left right : List (List Char)} {groups : List ℕ}
      (hleft : ∀ part ∈ left, isHexGroup part = true) (hright : PartDenotes right groups)
      (hlen : left.length + groups.length ≤ 7) :
      Denotes ([':'].intercalate left ++ [':', ':'] ++ [':'].intercalate right)
        (left.map (Ip.readDigits 16) ++ List.replicate (8 - left.length - groups.length) 0 ++
          groups)

/-- The text ends in `0.0.0.0`, with zero groups only between `::` and that. -/
def endsInZeros (text : List Char) : Bool :=
  match splitDouble text with
  | [_, right] => ((right.splitOn ':').dropLast.all fun part => Ip.readDigits 16 part = 0) &&
      (right.splitOn ':').getLast? = some "0.0.0.0".toList
  | _ => (text.splitOn ':').getLast? = some "0.0.0.0".toList

theorem isIPv4_eq_true {quad : List Char} (h : isIPv4 quad = true) : ∃ a b c d : ℕ,
    a < 256 ∧ b < 256 ∧ c < 256 ∧ d < 256 ∧
      quad = ['.'].intercalate ([a, b, c, d].map (Nat.toDigits 10)) ∧
      quadGroups quad = [a * 256 + b, c * 256 + d] := by
  rw [isIPv4, Bool.and_eq_true] at h
  obtain ⟨hlen, hoctets⟩ := h
  have hjoin : ['.'].intercalate (quad.splitOn '.') = quad := intercalate_splitOn '.'
  match hsplit : quad.splitOn '.', hlen with
  | [t₁, t₂, t₃, t₄], _ =>
    rw [hsplit] at hoctets hjoin
    simp only [all_cons, all_nil, Bool.and_true, Bool.and_eq_true, isOctet, any_eq_true, mem_range,
      decide_eq_true_eq] at hoctets
    obtain ⟨⟨a, ha, rfl⟩, ⟨b, hb, rfl⟩, ⟨c, hc, rfl⟩, ⟨d, hd, rfl⟩⟩ := hoctets
    refine ⟨a, b, c, d, ha, hb, hc, hd, hjoin.symm, ?_⟩
    rw [quadGroups, hsplit]
    simp only [map_cons, map_nil, Ip.readDigits_toDigits (by decide : 1 < 10) (by decide)]

/-- A dotted quad is read as the digits of its first number. -/
theorem parseHex_quad {a : ℕ} {rest : List (List Char)} (hrest : rest ≠ []) :
    parseHex (['.'].intercalate (Nat.toDigits 10 a :: rest)) =
      Ip.readDigits 16 (Nat.toDigits 10 a) := by
  obtain ⟨second, rest, rfl⟩ := exists_cons_of_ne_nil hrest
  have hdigits : ∀ c ∈ Nat.toDigits 10 a, (hexValue c).isSome = true := fun c hc =>
    Option.isSome_iff_ne_none.mpr (Ip.hexValue_of_mem_toDigits (by decide) (by decide) hc)
  rw [parseHex, intercalate_cons_cons, append_assoc, takeWhile_append_of_pos hdigits,
    singleton_append, takeWhile_cons_of_neg (by decide), append_nil]
  rfl

/-- The quad is read as its first group, and the second is zero, only if both are. -/
theorem parseHex_quad_eq {quad : List Char} (h : isIPv4 quad = true) :
    ∃ high low, quadGroups quad = [high, low] ∧ high < 2 ^ 16 ∧ low < 2 ^ 16 ∧
      parseHex quad < 2 ^ 16 ∧ '.' ∈ quad ∧
      (quad = "0.0.0.0".toList ↔ high = 0 ∧ low = 0) ∧
      (high = 0 → parseHex quad = 0) ∧ (high = parseHex quad → high = 0) := by
  obtain ⟨a, b, c, d, ha, hb, hc, hd, rfl, hgroups⟩ := isIPv4_eq_true h
  have hsmall : ∀ n < 256, Ip.readDigits 16 (Nat.toDigits 10 n) < 2 ^ 16 ∧
      (n ≠ 0 → Ip.readDigits 16 (Nat.toDigits 10 n) < n * 256) := by decide +kernel
  obtain ⟨hlt, hread⟩ := hsmall a ha
  have hparse : parseHex (['.'].intercalate ([a, b, c, d].map (Nat.toDigits 10))) = _ :=
    parseHex_quad (by simp)
  refine ⟨_, _, hgroups, by omega, by omega, hparse ▸ hlt, by simp, ?_, ?_, ?_⟩
  · constructor
    · intro hzero
      have hsame := congrArg quadGroups hzero
      rw [hgroups] at hsame
      exact ⟨(cons.inj hsame).1, (cons.inj (cons.inj hsame).2).1⟩
    · rintro ⟨hhigh, hlow⟩
      obtain ⟨rfl, rfl, rfl, rfl⟩ : a = 0 ∧ b = 0 ∧ c = 0 ∧ d = 0 := by omega
      decide +kernel
  · intro hhigh
    obtain rfl : a = 0 := by omega
    rw [hparse]
    decide +kernel
  · rw [hparse]
    intro hsame
    by_cases hzero : a = 0
    · subst hzero
      rw [show Ip.readDigits 16 (Nat.toDigits 10 0) = 0 by decide +kernel] at hsame
      omega
    · omega

theorem intercalate_splitDouble (text : List Char) :
    [':', ':'].intercalate (splitDouble text) = text := by
  fun_induction splitDouble text with
  | case1 rest ih =>
    cases hsp : splitDouble rest with
    | nil =>
      rw [hsp] at ih
      rw [← ih] at hsp
      cases hsp
    | cons _ _ =>
      rw [hsp] at ih
      rw [intercalate_cons_cons, ih]
      rfl
  | case2 c _ _ _ parts hsp ih =>
    rw [hsp] at ih
    cases parts with
    | nil => simpa using ih
    | cons _ _ =>
      rw [← ih]
      rfl
  | case3 c _ _ hsp ih =>
    rw [hsp] at ih
    simpa using ih
  | case4 => rfl

theorem mem_intercalate {c : Char} {groups : List (List Char)} {group : List Char}
    (hg : group ∈ groups) (hc : c ∈ group) : c ∈ [':'].intercalate groups := by
  induction groups with
  | nil => cases hg
  | cons _ rest ih =>
    cases rest with
    | nil => simpa [mem_singleton.mp hg] using hc
    | cons _ _ =>
      rcases mem_cons.mp hg with rfl | hrest
      · simp [hc]
      · simp [ih hrest]

theorem dot_not_mem {parts : List (List Char)} (h : ∀ part ∈ parts, isHexGroup part = true) :
    '.' ∉ [':'].intercalate parts := by
  induction parts with
  | nil => simp
  | cons part parts ih =>
    rw [forall_mem_cons] at h
    have hdot : '.' ∉ part := by
      have hhex := h.1
      unfold isHexGroup at hhex
      rw [Bool.and_eq_true, all_eq_true] at hhex
      exact fun hmem => absurd (hhex.2 _ hmem) (by decide)
    cases parts with
    | nil => simpa using hdot
    | cons second rest =>
      rw [intercalate_cons_cons, mem_append, mem_append, not_or, not_or]
      exact ⟨⟨hdot, by decide⟩, ih h.2⟩

/-- The groups of a part, as `ipv6ToBuffer` splits it. -/
theorem countGroups_eq_some {embedded : Bool} {part : List Char} {n : ℕ}
    (h : countGroups embedded part = some n) : ∃ (parts : List (List Char)) (groups : List ℕ),
      part = [':'].intercalate parts ∧ (if part = [] then [] else part.splitOn ':') = parts ∧
      PartDenotes parts groups ∧ groups.length = n ∧
      (embedded = false → parts.length = n ∧ ∀ part ∈ parts, isHexGroup part = true) := by
  unfold countGroups at h
  dsimp only at h
  have hjoin : [':'].intercalate (part.splitOn ':') = part := intercalate_splitOn ':'
  split_ifs at h with hnil hhex hquad
  · cases h
    exact ⟨[], [], by rw [hnil]; rfl, if_pos hnil, .hex nofun, rfl, fun _ => ⟨rfl, nofun⟩⟩
  · cases h
    have hall := all_eq_true.mp hhex
    exact ⟨_, _, hjoin.symm, if_neg hnil, .hex hall, length_map _, fun _ => ⟨rfl, hall⟩⟩
  · cases h
    simp only [Bool.and_eq_true, Option.any_eq_true] at hquad
    obtain ⟨⟨rfl, hhexs⟩, quad, hlast, hipv4⟩ := hquad
    have hparts := dropLast_append_getLast? quad hlast
    obtain ⟨high, low, hgroups, -⟩ := parseHex_quad_eq hipv4
    have hdenotes := PartDenotes.quad (all_eq_true.mp hhexs) hipv4
    rw [hparts] at hdenotes
    refine ⟨_, _, hjoin.symm, if_neg hnil, hdenotes, ?_, nofun⟩
    have hlen := congrArg length hparts
    simp only [length_append, length_map, hgroups, length_cons, length_nil] at hlen ⊢
    omega

theorem readDigits_lt {part : List Char} (h : isHexGroup part = true) :
    Ip.readDigits 16 part < 2 ^ 16 := by
  have hall (text : List Char) : Ip.readDigits 16 text < 16 ^ text.length := by
    induction text using List.reverseRecOn with
    | nil => decide
    | append_singleton text c ih =>
      have hc : (hexValue c).getD 0 < 16 := by
        unfold hexValue
        split_ifs with hdigit hlower hupper
        · have hle : c.toNat ≤ 57 := hdigit.2
          show c.toNat - 48 < 16
          omega
        · have hle : c.toNat ≤ 102 := hlower.2
          show c.toNat - 97 + 10 < 16
          omega
        · have hle : c.toNat ≤ 70 := hupper.2
          show c.toNat - 65 + 10 < 16
          omega
        · decide
      rw [length_append, length_singleton]
      simp only [Ip.readDigits, foldl_append, foldl_cons, foldl_nil] at ih ⊢
      omega
  unfold isHexGroup at h
  simp only [Bool.and_eq_true, decide_eq_true_eq] at h
  exact (hall part).trans_le (Nat.pow_le_pow_right (by decide) h.1.2)

theorem flatMap_uint16be_inj {xs ys : List ℕ} (hlen : xs.length = ys.length)
    (hx : ∀ n ∈ xs, n < 2 ^ 16) (hy : ∀ n ∈ ys, n < 2 ^ 16)
    (h : xs.flatMap uint16be = ys.flatMap uint16be) : xs = ys := by
  induction xs generalizing ys with
  | nil => exact (length_eq_zero_iff.mp hlen.symm).symm
  | cons x xs ih =>
    obtain ⟨y, ys, rfl⟩ := exists_cons_of_length_eq_add_one hlen.symm
    rw [forall_mem_cons] at hx hy
    obtain ⟨hhead, hrest⟩ := append_inj h rfl
    have hsame := congrArg ofBytes hhead
    rw [ofBytes_uint16be hx.1, ofBytes_uint16be hy.1] at hsame
    rw [hsame, ih (Nat.succ_inj.mp hlen) hx.2 hy.2 hrest]

/-- Groups that are read one place too far to the right. -/
theorem cons_append_eq {groups : List ℕ} {read high low : ℕ} :
    0 :: (groups ++ [read]) = groups ++ [high, low] ↔
      (∀ n ∈ groups, n = 0) ∧ high = 0 ∧ low = read := by
  induction groups with
  | nil => simp [eq_comm]
  | cons n groups ih =>
    rw [cons_append, cons_append, cons.injEq, forall_mem_cons, and_assoc, eq_comm]
    refine and_congr_right ?_
    rintro rfl
    exact ih

theorem flatMap_range_seven {parts : List (List Char)} (hlen : parts.length = 7) :
    ((List.range 8).flatMap fun i => uint16be (parseHex (parts.getD i ['0']))) =
      (parts.map parseHex ++ [0]).flatMap uint16be := by
  match parts, hlen with
  | [a, b, c, d, e, g, i], _ => rfl

/-- What `ipv6ToBuffer` reads from the groups of a whole text, and from those behind `::`. -/
theorem PartDenotes.read {parts : List (List Char)} {groups : List ℕ}
    (h : PartDenotes parts groups) :
    (∀ n ∈ groups, n < 2 ^ 16) ∧ (∀ n ∈ parts.map parseHex, n < 2 ^ 16) ∧
    ((parts.map parseHex = groups ∧ '.' ∉ [':'].intercalate parts) ∨
      parts.length + 1 = groups.length ∧ '.' ∈ [':'].intercalate parts ∧
      (parts.map parseHex ++ [0] = groups ↔ parts.getLast? = some "0.0.0.0".toList) ∧
      (0 :: parts.map parseHex = groups ↔ parts.getLast? = some "0.0.0.0".toList ∧
        ∀ part ∈ parts.dropLast, Ip.readDigits 16 part = 0)) := by
  have hlt {parts : List (List Char)} (hhex : ∀ part ∈ parts, isHexGroup part = true) :
      ∀ n ∈ parts.map (Ip.readDigits 16), n < 2 ^ 16 :=
    forall_mem_map.mpr fun part hpart => readDigits_lt (hhex part hpart)
  cases h with
  | hex hhex =>
    rw [map_parseHex hhex]
    exact ⟨hlt hhex, hlt hhex, Or.inl ⟨rfl, dot_not_mem hhex⟩⟩
  | @quad parts quad hhex hquad =>
    obtain ⟨high, low, hgroups, hhigh, hlow, hread, hdot, hzero, hnone, hfirst⟩ :=
      parseHex_quad_eq hquad
    rw [map_append, map_parseHex hhex, hgroups, map_singleton, getLast?_append, dropLast_concat]
    simp only [forall_mem_append, forall_mem_cons, getLast?_singleton, Option.some_or,
      Option.some.injEq, hzero]
    refine ⟨⟨hlt hhex, hhigh, hlow, nofun⟩, ⟨hlt hhex, hread, nofun⟩, Or.inr ⟨by simp, ?_, ?_, ?_⟩⟩
    · exact mem_intercalate (mem_append_right _ mem_cons_self) hdot
    · rw [append_assoc, append_cancel_left_eq]
      simp only [cons_append, nil_append, cons.injEq, and_true]
      constructor
      · rintro ⟨hsame, rfl⟩
        exact ⟨hfirst hsame.symm, rfl⟩
      · rintro ⟨rfl, rfl⟩
        exact ⟨hnone rfl, rfl⟩
    · rw [cons_append_eq, forall_mem_map, and_comm]
      refine and_congr_left fun _ => and_congr_right fun hzero => ?_
      rw [hnone hzero]

theorem denotes_whole {parts : List (List Char)} {groups : List ℕ} (h : PartDenotes parts groups)
    (hlen : groups.length = 8) :
    ((List.range 8).flatMap fun i => uint16be (parseHex (parts.getD i ['0']))) =
        groups.flatMap uint16be ↔
      '.' ∉ [':'].intercalate parts ∨ parts.getLast? = some "0.0.0.0".toList := by
  obtain ⟨hgroups, hparts, ⟨hread, hdot⟩ | ⟨hone, hdot, hread, -⟩⟩ := h.read
  · rw [flatMap_range (by rw [← hlen, ← hread, length_map]), hread]
    exact iff_of_true rfl (Or.inl hdot)
  · rw [flatMap_range_seven (by omega), ← hread, or_iff_right (not_not_intro hdot)]
    refine ⟨fun heq => flatMap_uint16be_inj (by simp; omega) ?_ hgroups heq, congrArg _⟩
    exact forall_mem_append.mpr ⟨hparts, by decide⟩

theorem denotes_compressed {left right : List (List Char)} {groups : List ℕ}
    (hleft : ∀ part ∈ left, isHexGroup part = true) (h : PartDenotes right groups)
    (hlen : left.length + groups.length ≤ 7) :
    ((List.range 8).flatMap fun i => uint16be (parseHex
      ((left ++ List.replicate (8 - left.length - right.length) ['0'] ++ right).getD i ['0']))) =
        (left.map (Ip.readDigits 16) ++ List.replicate (8 - left.length - groups.length) 0 ++
          groups).flatMap uint16be ↔
      '.' ∉ [':'].intercalate right ∨ right.getLast? = some "0.0.0.0".toList ∧
        ∀ part ∈ right.dropLast, Ip.readDigits 16 part = 0 := by
  obtain ⟨hgroups, hparts, hcases⟩ := h.read
  have hle : right.length ≤ groups.length := by
    rcases hcases with ⟨hread, -⟩ | ⟨hone, -⟩
    · rw [← hread, length_map]
    · omega
  rw [flatMap_range (by simp; omega), map_append, map_append, map_replicate, map_parseHex hleft,
    show parseHex ['0'] = 0 from rfl]
  rcases hcases with ⟨rfl, hdot⟩ | ⟨hone, hdot, -, hread⟩
  · rw [length_map]
    exact iff_of_true rfl (Or.inl hdot)
  · have hzeros : 8 - left.length - right.length = 8 - left.length - groups.length + 1 := by omega
    rw [or_iff_right (not_not_intro hdot), ← hread, hzeros, replicate_succ', append_assoc,
      append_assoc, append_assoc, singleton_append]
    constructor
    · intro heq
      rw [flatMap_append, flatMap_append, flatMap_append, flatMap_append,
        append_cancel_left_eq, append_cancel_left_eq] at heq
      refine flatMap_uint16be_inj (by simp; omega) ?_ hgroups heq
      exact forall_mem_cons.mpr ⟨by decide, hparts⟩
    · intro heq
      rw [heq]

/-- A text is read as what it denotes, exactly if it does not end in a dotted quad, or in one that
is zero. -/
theorem ipv6ToBuffer_denotes {text : List Char} (h : isIPv6 text = true) (hzone : '%' ∉ text) :
    ∃ groups, Denotes text groups ∧ (ipv6ToBuffer text = some (groups.flatMap uint16be) ↔
      '.' ∉ text ∨ endsInZeros text = true) := by
  have hval := h
  have hjoin := intercalate_splitDouble text
  rw [isIPv6_of_not_mem hzone] at h
  unfold ipv6ToBuffer expandGroups endsInZeros
  simp only [if_pos hval, Option.some.injEq]
  split at h
  · rename_i whole hsp
    rw [hsp] at hjoin ⊢
    obtain rfl : whole = text := by simpa using hjoin
    obtain ⟨parts, groups, hpart, hon, hdenotes, hlen, -⟩ :=
      countGroups_eq_some (of_decide_eq_true h)
    refine ⟨groups, hpart ▸ .whole hdenotes hlen, ?_⟩
    have hne : whole ≠ [] := by
      rintro rfl
      simp [countGroups] at h
    rw [if_neg hne] at hon
    rw [hon, denotes_whole hdenotes hlen, ← hpart, decide_eq_true_eq]
  · rename_i left right hsp
    rw [hsp, intercalate_cons_cons, intercalate_singleton] at hjoin
    simp only [Option.any_eq_true, Option.bind_eq_some_iff, Option.map_eq_some_iff,
      decide_eq_true_eq] at h
    obtain ⟨_, ⟨l, hl, n, hr, rfl⟩, hle⟩ := h
    obtain ⟨lefts, -, hleft, hspl, -, -, hhex⟩ := countGroups_eq_some hl
    obtain ⟨rights, groups, hright, hspr, hdenotes, rfl, -⟩ := countGroups_eq_some hr
    obtain ⟨rfl, hhexs⟩ := hhex rfl
    have hden := Denotes.compressed hhexs hdenotes hle
    rw [← hleft, ← hright, hjoin] at hden
    refine ⟨_, hden, ?_⟩
    have hdot : '.' ∉ text ↔ '.' ∉ right := by
      rw [← hjoin, mem_append, mem_append, or_iff_right]
      rw [hleft, not_or]
      exact ⟨dot_not_mem hhexs, by decide⟩
    rw [hsp]
    dsimp only
    rw [hspl, hspr, denotes_compressed hhexs hdenotes hle, hdot, ← hright, and_comm]
    by_cases hnil : right = []
    · simp [hnil]
    · rw [if_neg hnil] at hspr
      simp [hspr]
  · cases h

/-- Addresses are written with the first longest run of at least two zeros left out, and read back.
A text is read as what it denotes, exactly if it does not end in a dotted quad, or in zeros. -/
theorem ipv6_texts_exact (buf : Buffer) (text : List Char) :
    (buf.length = 16 → ipv6ToBuffer (bufferToIpv6 buf) = some buf ∧
      ∃ start len, ZeroRun (Ip.segments buf) start len ∧
        (∀ other run, ZeroRun (Ip.segments buf) other run →
          run ≤ len ∧ (run = len → start ≤ other)) ∧
        bufferToIpv6 buf = if 1 < len then
          joinHex ((Ip.segments buf).take start) ++ [':', ':'] ++
            joinHex ((Ip.segments buf).drop (start + len))
          else joinHex (Ip.segments buf)) ∧
      (isIPv6 text = true → '%' ∉ text → ∃ groups, Denotes text groups ∧
        (ipv6ToBuffer text = some (groups.flatMap uint16be) ↔
          '.' ∉ text ∨ endsInZeros text = true)) :=
  ⟨fun h => ⟨ipv6ToBuffer_bufferToIpv6 h, _, _, (findZeros_inv _).best,
    (findZeros_longest _).best, rfl⟩, ipv6ToBuffer_denotes⟩

/-- A dotted quad is read as one group, of its first number. -/
theorem ipv6ToBuffer_dotted : isIPv6 "::ffff:1.2.3.4".toList = true ∧
    ipv6ToBuffer "::ffff:1.2.3.4".toList = ipv6ToBuffer "::ffff:1".toList ∧
    ipv6ToBuffer "::ffff:1.2.3.4".toList ≠ ipv6ToBuffer "::ffff:102:304".toList := by
  decide +kernel

end Dhcp6
