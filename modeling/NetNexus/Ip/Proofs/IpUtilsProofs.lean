import NetNexus.Ip.IpUtils
import NetNexus.Node.Proofs.TextProofs

/-!
# An address library

What is assumed of `ipaddr.js` can be met: `plain` prints IPv6 addresses as eight hexadecimal
groups and reads exactly the texts that it prints.
-/

namespace Ip

open Node
open List hiding Vector

/-! ## Groups of digits -/

def readDigits (base : ℕ) (digits : List Char) : ℕ :=
  digits.foldl (fun acc c => acc * base + (hexValue c).getD 0) 0

variable {base : ℕ}

theorem readDigits_toDigits (hlow : 1 < base) (hhigh : base ≤ 16) (n : ℕ) :
    readDigits base (Nat.toDigits base n) = n := by
  induction n using Nat.strong_induction_on with
  | h n ih =>
    by_cases hn : n < base
    · rw [Nat.toDigits_of_lt_base hn]
      simp [readDigits, hexValue_digitChar_of_lt (Nat.lt_of_lt_of_le hn hhigh)]
    · have hdiv : n / base < n := Nat.div_lt_self (by omega) hlow
      have hmod : n % base < 16 := Nat.lt_of_lt_of_le (Nat.mod_lt _ (by omega)) hhigh
      have hrec := ih _ hdiv
      unfold readDigits at hrec ⊢
      rw [Nat.toDigits_of_base_le hlow (by omega), foldl_append, hrec]
      simp [hexValue_digitChar_of_lt hmod, Nat.div_add_mod']

theorem hexValue_of_mem_toDigits {base n : ℕ} {c : Char} (hlow : 1 < base) (hhigh : base ≤ 16)
    (hc : c ∈ Nat.toDigits base n) : hexValue c ≠ none := by
  induction n using Nat.strong_induction_on with
  | h n ih =>
    have hdigit : ∀ d, d < base → hexValue d.digitChar ≠ none := by
      intro d hd
      rw [hexValue_digitChar_of_lt (Nat.lt_of_lt_of_le hd hhigh)]
      exact Option.some_ne_none d
    by_cases hn : n < base
    · rw [Nat.toDigits_of_lt_base hn, mem_singleton] at hc
      rw [hc]
      exact hdigit n hn
    · rw [Nat.toDigits_of_base_le hlow (by omega), mem_append, mem_singleton] at hc
      rcases hc with hc | rfl
      · exact ih _ (Nat.div_lt_self (by omega) hlow) hc
      · exact hdigit _ (Nat.mod_lt _ (by omega))

/-- Numbers in a base, with a separator between them. -/
def joinGroups (separator : Char) (base : ℕ) (groups : List ℕ) : String :=
  String.ofList ([separator].intercalate (groups.map (Nat.toDigits base)))

def splitGroups (separator : Char) (base : ℕ) (text : String) : List ℕ :=
  (text.toList.splitOn separator).map (readDigits base)

theorem splitGroups_joinGroups {separator : Char} {groups : List ℕ} (hlow : 1 < base)
    (hhigh : base ≤ 16) (hsep : hexValue separator = none) (hne : groups ≠ []) :
    splitGroups separator base (joinGroups separator base groups) = groups := by
  have hfree : ∀ digits ∈ groups.map (Nat.toDigits base), separator ∉ digits := by
    intro digits hdigs hmem
    obtain ⟨n, -, rfl⟩ := List.mem_map.mp hdigs
    exact hexValue_of_mem_toDigits hlow hhigh hmem hsep
  unfold splitGroups joinGroups
  rw [String.toList_ofList, splitOn_intercalate separator hfree (by simpa using hne), map_map]
  exact (map_congr_left fun n _ => readDigits_toDigits hlow hhigh n).trans (map_id _)

variable (bytes : Vector UInt8 4)

theorem exists_octets : ∃ a b c d, bytes = #v[a, b, c, d] := by
  refine ⟨bytes[0], bytes[1], bytes[2], bytes[3], Vector.ext fun i hi => ?_⟩
  match i with
  | 0 | 1 | 2 | 3 => rfl

theorem dotted_eq_joinGroups : dotted bytes = joinGroups '.' 10 (bytes.toList.map UInt8.toNat) := by
  refine String.toList_inj.mp ?_
  unfold dotted joinGroups
  rw [String.toList_intercalate, map_map, map_map]
  have hdigs : ∀ b ∈ bytes.toList, (String.toList ∘ fun b => toString b.toNat) b =
      (Nat.toDigits 10 ∘ UInt8.toNat) b := fun b _ => Nat.toList_repr
  rw [map_congr_left hdigs]
  exact String.toList_ofList.symm

theorem mem_joinGroups {separator c : Char} {groups : List ℕ} (hlow : 1 < base) (hhigh : base ≤ 16)
    (hc : c ∈ (joinGroups separator base groups).toList) : c = separator ∨ hexValue c ≠ none := by
  unfold joinGroups at hc
  rw [String.toList_ofList] at hc
  induction groups with
  | nil => simp at hc
  | cons n groups ih =>
    cases groups with
    | nil =>
      refine .inr (hexValue_of_mem_toDigits (n := n) hlow hhigh ?_)
      simpa using hc
    | cons m _ =>
      rw [map_cons, map_cons, intercalate_cons_cons, mem_append, mem_append, mem_singleton] at hc
      rcases hc with (hc | hc) | hc
      · exact .inr (hexValue_of_mem_toDigits hlow hhigh hc)
      · exact .inl hc
      · exact ih hc

/-! ## The library -/

/-- The 16-bit groups of an IPv6 address. -/
def groups (bytes : Vector UInt8 16) : List ℕ :=
  (List.range 8).map fun i =>
    (bytes.toList.getD (2 * i) 0).toNat * 256 + (bytes.toList.getD (2 * i + 1) 0).toNat

/-- The address that a text can only stand for. -/
def candidate (text : String) : Address :=
  if ':' ∈ text.toList then
    .ipv6 (.ofFn fun i => UInt8.ofNat
      ((splitGroups ':' 16 text).getD (i / 2) 0 / 256 ^ (1 - i.val % 2)))
  else .ipv4 (.ofFn fun i => UInt8.ofNat ((splitGroups '.' 10 text).getD i 0))

/-- The text of an address as its numbers, in decimal or as hexadecimal groups. -/
def plainText : Address → String
  | .ipv4 bytes => dotted bytes
  | .ipv6 bytes => joinGroups ':' 16 (groups bytes)

def plainParse (text : String) : Option Address :=
  if plainText (candidate text) = text then some (candidate text) else none

def plainParseCIDR (text : String) : Option (Address × ℕ) :=
  match text.toList.splitOn '/' with
  | [address, mask] => do return (← plainParse (String.ofList address), ← decimal? mask)
  | _ => none

def plain : Ipaddr where
  parse := plainParse
  print := plainText
  toNormalizedString bytes := plainText (.ipv6 bytes)
  isValidIPv4 text := (plainParse text).any (·.kind = .ipv4)
  networkAddressFromCIDR kind text :=
    match plainParseCIDR text with
    | some (address, mask) =>
      if address.kind = kind then .ok (networkAddress mask address) else .error "invalid CIDR"
    | none => .error "invalid CIDR"
  fromByteArray bytes :=
    if h : bytes.length = 4 then .ok (.ipv4 ⟨bytes.toArray, h⟩)
    else if h : bytes.length = 16 then .ok (.ipv6 ⟨bytes.toArray, h⟩)
    else .error "invalid bytes"
  isIPv4MappedAddress bytes := (Address.ipv6 bytes).isIPv4Mapped
  parseCIDR := plainParseCIDR
  matchNetwork := Address.inNetwork

theorem candidate_ipv4 : candidate (plainText (.ipv4 bytes)) = .ipv4 bytes := by
  have hcolon : ':' ∉ (dotted bytes).toList := by
    rw [dotted_eq_joinGroups]
    intro hmem
    rcases mem_joinGroups (by decide) (by decide) hmem with heq | hhex
    · exact absurd heq (by decide)
    · exact hhex rfl
  have hsplit : splitGroups '.' 10 (dotted bytes) = bytes.toList.map UInt8.toNat := by
    rw [dotted_eq_joinGroups]
    refine splitGroups_joinGroups (by decide) (by decide) rfl fun hnil => ?_
    simpa using congrArg length hnil
  rw [plainText, candidate, if_neg hcolon, hsplit]
  refine congrArg Address.ipv4 (Vector.ext fun i hi => ?_)
  simp

theorem colon_mem_groups (bytes : Vector UInt8 16) :
    ':' ∈ (joinGroups ':' 16 (groups bytes)).toList := by
  simp [joinGroups, groups, range_succ]

theorem candidate_ipv6 (bytes : Vector UInt8 16) :
    candidate (plainText (.ipv6 bytes)) = .ipv6 bytes := by
  have hsplit : splitGroups ':' 16 (joinGroups ':' 16 (groups bytes)) = groups bytes := by
    refine splitGroups_joinGroups (by decide) (by decide) rfl fun hnil => ?_
    simpa [groups] using congrArg length hnil
  rw [plainText, candidate, if_pos (colon_mem_groups bytes), hsplit]
  refine congrArg Address.ipv6 (Vector.ext fun i hi => ?_)
  have hgroup : (groups bytes).getD (i / 2) 0 = (bytes.toList.getD (2 * (i / 2)) 0).toNat * 256 +
      (bytes.toList.getD (2 * (i / 2) + 1) 0).toNat := by
    simp [groups, show i / 2 < 8 by omega]
  have hbyte : bytes.toList.getD i 0 = bytes[i] := by simp [hi]
  have hlow := (bytes.toList.getD (2 * (i / 2) + 1) 0).toNat_lt
  rw [Vector.getElem_ofFn, hgroup, ← hbyte]
  rcases Nat.mod_two_eq_zero_or_one i with hparity | hparity
  · have hi' : 2 * (i / 2) = i := by omega
    rw [hparity, show 256 ^ (1 - 0) = 256 from rfl, Nat.add_comm,
      Nat.add_mul_div_right _ _ (by decide),
      Nat.div_eq_of_lt hlow, Nat.zero_add, hi', UInt8.ofNat_toNat]
  · have hi' : 2 * (i / 2) + 1 = i := by omega
    refine UInt8.toNat_inj.mp ?_
    rw [hi'] at hlow ⊢
    rw [hparity, UInt8.toNat_ofNat']
    omega

theorem plainParse_text (address : Address) : plainParse (plainText address) = some address := by
  have hc : candidate (plainText address) = address := by
    cases address with
    | ipv4 bytes => exact candidate_ipv4 bytes
    | ipv6 bytes => exact candidate_ipv6 bytes
  rw [plainParse, hc, if_pos rfl]

theorem text_plain (address : Address) : plain.text address = plainText address := by
  cases address with
  | ipv4 _ => rw [Ipaddr.text, plainText]
  | ipv6 _ => rw [Ipaddr.text, plain]

theorem plain_documented : plain.Documented := by
  intro address
  rw [text_plain]
  exact plainParse_text address

theorem plain_prints : plain.Prints where
  parse_print := plainParse_text
  print_ipv4 _ := rfl
  digits := by
    intro bytes c hc
    rcases mem_joinGroups (by omega) (by omega) hc with heq | hhex
    · exact .inl heq
    · exact .inr (Option.isSome_iff_ne_none.mpr hhex)

theorem slash_notMem_plainText (address : Address) : '/' ∉ (plainText address).toList := by
  intro hmem
  have hsep : ∀ separator base values, 1 < base → base ≤ 16 → separator ≠ '/' →
      '/' ∉ (joinGroups separator base values).toList := by
    intro separator base values hlow hhigh hne hmem
    rcases mem_joinGroups hlow hhigh hmem with heq | hhex
    · exact hne heq.symm
    · exact hhex rfl
  cases address with
  | ipv4 bytes =>
    rw [plainText, dotted_eq_joinGroups] at hmem
    exact hsep _ _ _ (by omega) (by omega) (by decide) hmem
  | ipv6 bytes => exact hsep _ _ _ (by omega) (by omega) (by decide) hmem

theorem plainParseCIDR_text (address : Address) (mask : ℕ) :
    plainParseCIDR (plainText address ++ "/" ++ toString mask) = some (address, mask) := by
  have hmask : '/' ∉ (toString mask).toList :=
    fun hmem => absurd (isDigit_of_mem_toString hmem) (by decide)
  have hfree : ∀ part ∈ [(plainText address).toList, (toString mask).toList], '/' ∉ part := by
    intro part hpart
    rcases List.mem_pair.mp hpart with rfl | rfl
    · exact slash_notMem_plainText address
    · exact hmask
  have hsplit : (plainText address ++ "/" ++ toString mask).toList.splitOn '/' =
      [(plainText address).toList, (toString mask).toList] := by
    have hsplit := splitOn_intercalate '/' hfree (cons_ne_nil _ _)
    rw [← hsplit]
    simp
  have hdigits : (toString mask).toList = Nat.toDigits 10 mask := Nat.toList_repr
  rw [plainParseCIDR, hsplit]
  dsimp only
  rw [String.ofList_toList, plainParse_text, hdigits, decimal?_toDigits]
  rfl

theorem plain_readsBack : plain.ReadsBack where
  toPrints := plain_prints
  isValid_print bytes := by
    show (plainParse (plainText (.ipv4 bytes))).any _ = true
    rw [plainParse_text]
    rfl
  network_print address mask _ := by
    have hparse := plainParseCIDR_text address mask
    show (match plainParseCIDR (plainText address ++ "/" ++ toString mask) with
      | some (parsed, mask) => if parsed.kind = address.kind then _ else _
      | none => _) = _
    rw [hparse]
    exact if_pos rfl

theorem plain_converts : plain.Converts where
  toPrints := plain_prints
  fromByteArray_eq address := by
    cases address with
    | ipv4 bytes | ipv6 bytes =>
      have hlist : bytes.toList.toArray = bytes.toArray := Array.toArray_toList
      simp [plain, Address.toByteArray, hlist]
  isMapped_eq _ := rfl
  matchNetwork_eq _ _ _ _ := rfl

end Ip
