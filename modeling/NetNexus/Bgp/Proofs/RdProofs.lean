import NetNexus.Bgp.VpnEvpn
import NetNexus.Control.Fallible
import NetNexus.Ip.Proofs.IpUtilsProofs

/-!
# Route distinguishers in text and on the wire

The text of a normalized RD is read by `rdStringToBytes`, and `rdBufferToString` gives it back.
-/

namespace Bgp

open Control Ip Node
open List hiding Vector

/-! ## Decimal digits -/

theorem parseIntAuto_digits {digits : List Char} (hne : digits ≠ [])
    (h : ∀ c ∈ digits, c.isDigit) : parseIntAuto digits = some (readDigits 10 digits : ℤ) := by
  have hspace := dropWhile_isWhiteSpace fun c hc => isWhiteSpace_of_isDigit (h c hc)
  have htake : digits.takeWhile (fun c => (hexValue c).any (· < 10)) = digits := by
    rw [takeWhile_eq_self_iff]
    intro c hc
    obtain ⟨d, hd, hvalue⟩ := hexValue_of_isDigit (h c hc)
    rw [hvalue]
    simpa using hd
  unfold parseIntAuto
  rw [hspace]
  split
  rename_i heq
  split at heq
  · simp_all
  · simp_all
  · cases heq
    split
    rename_i heq
    split at heq
    · simp_all
    · simp_all
    · cases heq
      dsimp only
      rw [htake]
      simp [readDigits]

theorem parseIntAuto_toString (n : ℕ) : parseIntAuto (toString n).toList = some (n : ℤ) := by
  have hdigs : (toString n).toList = Nat.toDigits 10 n := Nat.toList_repr
  have hne : (toString n).toList ≠ [] := by
    rw [hdigs]
    exact Nat.toDigits_ne_nil
  rw [parseIntAuto_digits hne fun c hc => isDigit_of_mem_toString hc, hdigs,
    readDigits_toDigits (by omega) (by omega)]

theorem notMem_toString {n : ℕ} {c : Char} (h : c.isDigit = false) : c ∉ (toString n).toList := by
  intro hc
  rw [isDigit_of_mem_toString hc] at h
  exact Bool.noConfusion h

theorem notMem_dotted {bytes : Vector UInt8 4} {c : Char} (hdot : c ≠ '.')
    (hhex : hexValue c = none) : c ∉ (dotted bytes).toList := by
  intro hc
  rw [dotted_eq_joinGroups] at hc
  rcases mem_joinGroups (by omega) (by omega) hc with heq | hne
  · exact hdot heq
  · exact hne hhex

theorem dot_mem_dotted (bytes : Vector UInt8 4) : '.' ∈ (dotted bytes).toList := by
  obtain ⟨a, b, _, hbytes⟩ : ∃ a b rest, bytes.toList = a :: b :: rest := by
    have hlen : bytes.toList.length = 4 := by simp
    match hlist : bytes.toList with
    | a :: b :: rest => exact ⟨a, b, rest, rfl⟩
    | [_] | [] => simp [hlist] at hlen
  rw [dotted_eq_joinGroups, hbytes]
  simp [joinGroups]

theorem isWhiteSpace_of_hexValue {c : Char} (h : hexValue c ≠ none) : isWhiteSpace c = false := by
  have hrange : 48 ≤ c.toNat ∧ c.toNat ≤ 102 := by
    unfold hexValue at h
    split_ifs at h with hdigit hlower hupper
    · exact ⟨hdigit.1, le_trans hdigit.2 (by decide)⟩
    · exact ⟨le_trans (by decide) hlower.1, hlower.2⟩
    · exact ⟨le_trans (by decide) hupper.1, le_trans hupper.2 (by decide)⟩
    · exact absurd rfl h
  simp [isWhiteSpace]
  omega

theorem isWhiteSpace_of_mem_dotted {bytes : Vector UInt8 4} :
    ∀ c ∈ (dotted bytes).toList, isWhiteSpace c = false := by
  intro c hc
  rw [dotted_eq_joinGroups] at hc
  rcases mem_joinGroups (by omega) (by omega) hc with rfl | hhex
  · rfl
  · exact isWhiteSpace_of_hexValue hhex

/-! ## The form of a normalized RD -/

/-- The numbers fit in their fields. -/
def Rd.Normal : Rd → Prop
  | .ipv4 _ assigned => assigned ≤ 0xffff
  | .asn administrator assigned =>
    administrator ≤ 0xffffffff ∧ assigned ≤ if administrator ≤ 0xffff then 0xffffffff else 0xffff

variable {ipaddr : Ipaddr}

theorem normalizeRd_normal {value : Option String} {rd : Rd}
    (h : normalizeRd ipaddr value = .ok rd) : rd.Normal := by
  unfold normalizeRd at h
  split at h
  · split at h
    · cases h
    · split at h
      · obtain ⟨_, -, h⟩ := bind_ok.mp h
        obtain ⟨assigned, -, h⟩ := bind_ok.mp h
        cases h
        exact assigned.2.2
      · split at h
        · cases h
        · obtain ⟨administrator, -, h⟩ := bind_ok.mp h
          obtain ⟨assigned, -, h⟩ := bind_ok.mp h
          cases h
          exact ⟨administrator.2.2, assigned.2.2⟩
  · cases h

def Rd.bytes : Rd → Buffer
  | .ipv4 administrator assigned => [0, 1] ++ administrator.toList ++ uintBE 2 assigned
  | .asn administrator assigned =>
    if administrator ≤ 0xffff then [0, 0] ++ uintBE 2 administrator ++ uintBE 4 assigned
    else [0, 2] ++ uintBE 4 administrator ++ uintBE 2 assigned

theorem length_rdBytes (rd : Rd) : rd.bytes.length = 8 := by
  cases rd with
  | ipv4 _ _ => simp [Rd.bytes]
  | asn _ _ =>
    rw [Rd.bytes]
    split <;> simp

theorem writeUIntBE_of_lt {width n : ℕ} (h : n < 2 ^ (8 * width)) :
    writeUIntBE width (some (n : ℤ)) = .ok (uintBE width n) := by
  have hrange : (0 : ℤ) ≤ n ∧ (n : ℤ) < 2 ^ (8 * width) := ⟨by omega, by exact_mod_cast h⟩
  rw [writeUIntBE, if_pos hrange, Int.toNat_natCast]

theorem splitOn_colon {first second : List Char} (hfirst : ':' ∉ first) (hsnd : ':' ∉ second) :
    (first ++ ':' :: second).splitOn ':' = [first, second] := by
  have hfree : ∀ part ∈ [first, second], ':' ∉ part := by
    intro part hpart
    rcases List.mem_pair.mp hpart with rfl | rfl
    · exact hfirst
    · exact hsnd
  have hsplit := splitOn_intercalate ':' hfree (cons_ne_nil _ _)
  rwa [intercalate_cons_cons, intercalate_singleton, append_assoc] at hsplit

theorem toList_colon (first second : String) :
    (first ++ ":" ++ second).toList = first.toList ++ ':' :: second.toList := by
  rw [String.toList_append, String.toList_append, append_assoc]
  rfl

theorem Rd.print_eq (hlib : ipaddr.Prints) (rd : Rd) : rd.print ipaddr = rd.text := by
  cases rd with
  | ipv4 administrator _ => rw [Rd.print, hlib.print_ipv4, Rd.text]
  | asn _ _ => rfl

theorem rdStringToBytes_print (hlib : ipaddr.ReadsBack) {rd : Rd} (h : rd.Normal) :
    rdStringToBytes ipaddr (rd.print ipaddr) = .ok rd.bytes := by
  rw [Rd.print_eq hlib.toPrints]
  cases rd with
  | ipv4 administrator assigned =>
    have hvalid := hlib.isValid_print administrator
    have hparse := hlib.parse_print (.ipv4 administrator)
    rw [hlib.print_ipv4] at hvalid hparse
    have hbytes : ipv4Bytes ipaddr (dotted administrator) = .ok administrator.toList := by
      rw [ipv4Bytes, Ipaddr.ipToBytes, hparse]
      exact if_pos administrator.length_toList
    have hasgn : writeUIntBE 2 (some assigned) = .ok (uintBE 2 assigned) :=
      writeUIntBE_of_lt (Nat.lt_succ_of_le h)
    rw [rdStringToBytes, Rd.text, toList_colon, administratedBytes,
      splitOn_colon (notMem_dotted (by decide) rfl) (notMem_toString rfl)]
    dsimp only
    rw [String.ofList_toList, if_pos ⟨dot_mem_dotted administrator, hvalid⟩, hbytes,
      parseIntAuto_toString, hasgn]
    rfl
  | asn administrator _ =>
    obtain ⟨_, hasgn⟩ := h
    have hbig :
        ((some (administrator : ℤ)).any (· > 0xffff)) = !decide (administrator ≤ 0xffff) := by
      show decide _ = _
      by_cases hle : administrator ≤ 0xffff
      · rw [decide_eq_true hle, decide_eq_false (by omega)]
        rfl
      · rw [decide_eq_false hle, decide_eq_true (by omega)]
        rfl
    rw [rdStringToBytes, Rd.text, toList_colon, administratedBytes,
      splitOn_colon (notMem_toString rfl) (notMem_toString rfl)]
    dsimp only
    rw [if_neg fun hdot => notMem_toString rfl hdot.1, parseIntAuto_toString, parseIntAuto_toString,
      Rd.bytes]
    rw [hbig]
    by_cases hle : administrator ≤ 0xffff
    · rw [if_pos hle] at hasgn
      rw [if_pos hle, if_neg (by simp [hle]), writeUIntBE_of_lt (by omega),
        writeUIntBE_of_lt (by omega)]
      rfl
    · rw [if_neg hle] at hasgn
      rw [if_neg hle, if_pos (by simp [hle]), writeUIntBE_of_lt (by omega),
        writeUIntBE_of_lt (by omega)]
      rfl

theorem ofBytes_type (type : UInt8) (value : Buffer) :
    ofBytes (([0, type] ++ value).take 2) = type.toNat := by
  simp [ofBytes]

theorem rdBufferToString_bytes {rd : Rd} (h : rd.Normal) : rdBufferToString rd.bytes = rd.text := by
  cases rd with
  | ipv4 administrator assigned =>
    have hlen : administrator.toList.length = 4 := by simp
    have hasgn : ofBytes (uintBE 2 assigned) = assigned := ofBytes_uintBE (Nat.lt_succ_of_le h)
    rw [Rd.bytes, append_assoc, rdBufferToString, ofBytes_type]
    show ".".intercalate (((administrator.toList ++ uintBE 2 assigned).take 4).map _) ++ ":" ++
      toString (ofBytes ((administrator.toList ++ uintBE 2 assigned).drop 4)) = _
    rw [take_left' hlen, drop_left' hlen, hasgn]
    rfl
  | asn administrator assigned =>
    obtain ⟨_, hasgn⟩ := h
    rw [Rd.bytes]
    by_cases hle : administrator ≤ 0xffff
    · rw [if_pos hle] at hasgn ⊢
      have hfirst : ofBytes (uintBE 2 administrator) = administrator := ofBytes_uintBE (by omega)
      have hsnd : ofBytes (uintBE 4 assigned) = assigned := ofBytes_uintBE (by omega)
      rw [append_assoc, rdBufferToString, ofBytes_type]
      show toString (ofBytes ((uintBE 2 administrator ++ uintBE 4 assigned).take 2)) ++ ":" ++
        toString (ofBytes ((uintBE 2 administrator ++ uintBE 4 assigned).drop 2)) = _
      rw [take_left' (length_uintBE 2 _), drop_left' (length_uintBE 2 _), hfirst, hsnd]
      rfl
    · rw [if_neg hle] at hasgn ⊢
      have hfirst : ofBytes (uintBE 4 administrator) = administrator := ofBytes_uintBE (by omega)
      have hsnd : ofBytes (uintBE 2 assigned) = assigned := ofBytes_uintBE (by omega)
      rw [append_assoc, rdBufferToString, ofBytes_type]
      show toString (ofBytes ((uintBE 4 administrator ++ uintBE 2 assigned).take 4)) ++ ":" ++
        toString (ofBytes ((uintBE 4 administrator ++ uintBE 2 assigned).drop 4)) = _
      rw [take_left' (length_uintBE 4 _), drop_left' (length_uintBE 4 _), hfirst, hsnd]
      rfl

end Bgp
