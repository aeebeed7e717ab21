import NetNexus.Control.Fallible
import NetNexus.Ip.Proofs.IpUtilsProofs
import NetNexus.Node.Proofs.NumberProofs
import NetNexus.TcpAuth.Server

/-!
# A connection is handed over with its stream

A header is what its two ends and the capability make it, and is read back as such. A socket is
given to the handler once, if the bytes that arrive on it start with a header that the server
admits, and the handler reads what comes behind it.
-/

namespace Ip.Address

open Node

variable (a : Address)

theorem length_padded : a.padded.length = 16 := by
  cases a <;> simp [padded]

theorem family_cases : a.family = 4 ∨ a.family = 6 := by
  cases a
  · exact .inl rfl
  · exact .inr rfl

theorem family_known : ¬ (a.family ≠ 4 ∧ a.family ≠ 6) := by
  have := a.family_cases
  omega

end Ip.Address

namespace TcpAuth

open Control Ip Ip.Address Node
open List hiding Vector

variable {lib : Ipaddr} {token header : Buffer}

/-! ## The header -/

section

variable (hlib : lib.Converts)

include hlib

theorem isMapped_eq (a : Address) : isMapped lib a = a.isIPv4Mapped := by
  cases a with
  | ipv4 _ => rfl
  | ipv6 bytes => exact hlib.isMapped_eq bytes

theorem decodeAddress_padded {a : Address} (h : a.isIPv4Mapped = false) :
    decodeAddress lib a.padded a.family = .ok (lib.print a) := by
  have hbytes := hlib.fromByteArray_eq a
  have hmap := isMapped_eq hlib a
  cases a with
  | ipv4 bytes =>
    have hdrop : (ipv4 bytes).padded.drop 12 = (ipv4 bytes).toByteArray := by
      simp [padded, Address.toByteArray]
    unfold decodeAddress
    rw [hdrop, hbytes]
    rfl
  | ipv6 bytes =>
    show (lib.fromByteArray (ipv6 bytes).toByteArray >>= fun parsed => _) = _
    rw [hbytes]
    show (if _ = true then _ else _) = _
    rw [hmap, h]
    rfl

theorem decodeAddress_eq_ok {bytes : Buffer} {family : ℕ} {text : String}
    (hlen : bytes.length = 16)
    (hfam : family = 4 ∨ family = 6) (h : decodeAddress lib bytes family = .ok text) :
    ∃ a : Address, a.family = family ∧ a.isIPv4Mapped = false ∧ bytes = a.padded ∧
      text = lib.print a := by
  unfold decodeAddress at h
  rcases hfam with rfl | rfl
  · obtain ⟨hzero, h⟩ := ite_error_eq_ok.mp h
    rw [not_not] at hzero
    obtain ⟨v, hv⟩ : ∃ v : Vector UInt8 4, bytes.drop 12 = v.toList :=
      ⟨⟨(bytes.drop 12).toArray, by simp [hlen]⟩, rfl⟩
    rw [hv, show v.toList = (ipv4 v).toByteArray from rfl, hlib.fromByteArray_eq] at h
    refine ⟨.ipv4 v, rfl, rfl, ?_, (Except.ok.inj h).symm⟩
    rw [padded, ← hzero, ← hv, take_append_drop]
  · obtain ⟨v, rfl⟩ : ∃ v : Vector UInt8 16, bytes = v.toList := ⟨⟨bytes.toArray, hlen⟩, rfl⟩
    rw [show v.toList = (ipv6 v).toByteArray from rfl,
      hlib.fromByteArray_eq] at h
    obtain ⟨hmap, h⟩ := ite_error_eq_ok.mp h
    rw [isMapped_eq hlib, Bool.not_eq_true] at hmap
    exact ⟨.ipv6 v, rfl, hmap, rfl, (Except.ok.inj h).symm⟩

end

theorem normalizePort_eq_ok_iff {value port : ℕ} {name : String} :
    normalizePort value name = .ok port ↔ (1 ≤ value ∧ value ≤ 65535) ∧ port = value := by
  unfold normalizePort
  split
  · simp
    omega
  · simp [eq_comm]
    omega

theorem normalizeCapability_of_length (h : token.length = capabilityBytes) :
    normalizeCapability token = .ok token := by
  unfold normalizeCapability
  rw [if_neg (not_not.mpr h)]

theorem drop_eq_field_append (header : Buffer) (offset length : ℕ) :
    header.drop offset = field header offset length ++ header.drop (offset + length) := by
  rw [field, ← drop_drop, take_append_drop]

theorem eq_fields (h : header.length = headerBytes) :
    header = field header 0 4 ++ (field header 4 1 ++ (field header 5 1 ++ (field header 6 2 ++
      (field header 8 2 ++ (field header 10 2 ++ (field header 12 4 ++ (field header 16 16 ++
        (field header 32 16 ++ field header 48 32)))))))) := by
  have hsplit := drop_eq_field_append header
  have hrest : header.drop (48 + 32) = [] := drop_eq_nil_of_le (le_of_eq h)
  calc header = header.drop 0 := rfl
    _ = _ := by
      rw [hsplit 0 4, hsplit 4 1, hsplit 5 1, hsplit 6 2, hsplit 8 2, hsplit 10 2, hsplit 12 4,
        hsplit 16 16, hsplit 32 16, hsplit, hrest, List.append_nil]

theorem length_field {offset length : ℕ} (h : header.length = headerBytes)
    (hend : offset + length ≤ headerBytes) : (field header offset length).length = length := by
  unfold field
  rw [length_take, length_drop]
  omega

/-- Bytes that stand for a number are the ones that are written for it. -/
theorem eq_uint16be {bytes : Buffer} {n : ℕ} (hlen : bytes.length = 2) (h : ofBytes bytes = n)
    (hn : n < 2 ^ 16) : bytes = uint16be n :=
  ofBytes_inj hlen (h.trans (ofBytes_uint16be hn).symm)

variable (e : Endpoints)

theorem header_eq : e.header token = magic ++ ([version] ++ ([UInt8.ofNat e.remote.family] ++
    (uint16be headerBytes ++ (uint16be e.remotePort ++ (uint16be e.localPort ++ (uint32be 0 ++
      (e.remote.padded ++ (e.localEnd.padded ++ token)))))))) := by
  simp only [Endpoints.header, append_assoc]
  rfl

theorem length_header (h : token.length = capabilityBytes) :
    (e.header token).length = headerBytes := by
  rw [header_eq]
  simp only [length_append, length_padded, h]
  rfl

theorem decode_header (hlib : lib.Converts) (h : token.length = capabilityBytes) :
    decodeTcpAuthForwardHeader lib (e.header token) token = .ok (e.metadata lib) := by
  have hremote : field (e.header token) 16 16 = e.remote.padded := by
    rw [header_eq]
    exact take_left' (length_padded _)
  have hlocal : field (e.header token) 32 16 = e.localEnd.padded := by
    rw [header_eq]
    show List.take 16 (List.drop 16 (e.remote.padded ++ _)) = _
    rw [drop_left' (length_padded _), take_left' (length_padded _)]
  have htoken : field (e.header token) 48 32 = token := by
    rw [header_eq]
    show List.take 32 (List.drop 32 (e.remote.padded ++ _)) = _
    rw [← append_assoc, drop_left' (by simp [length_padded]),
      take_of_length_le (show token.length ≤ 32 from le_of_eq h)]
  have hfam : ofBytes (field (e.header token) 5 1) = e.remote.family := by
    rw [header_eq]
    rcases e.remote.family_cases with heq | heq <;> rw [heq] <;> rfl
  have hfixed : field (e.header token) 0 4 = magic ∧ field (e.header token) 4 1 = [version] ∧
      ofBytes (field (e.header token) 6 2) = headerBytes ∧
      ofBytes (field (e.header token) 12 4) = 0 := by
    rw [header_eq]
    exact ⟨rfl, rfl, rfl, rfl⟩
  obtain ⟨hmagic, -, hsize, hresv⟩ := hfixed
  have hports : ofBytes (field (e.header token) 8 2) = e.remotePort ∧
      ofBytes (field (e.header token) 10 2) = e.localPort := by
    exact ⟨ofBytes_uint16be (by have := e.remotePort_valid; omega),
      ofBytes_uint16be (by have := e.localPort_valid; omega)⟩
  unfold decodeTcpAuthForwardHeader
  simp only [normalizeCapability_of_length h, length_header e h, hfam, hsize,
    hresv, htoken, hremote, hlocal, hports.1, hports.2]
  have hknown := e.remote.family_known
  have hlocalEnd : decodeAddress lib e.localEnd.padded e.remote.family =
      .ok (lib.print e.localEnd) := by
    rw [← e.family_eq]
    exact decodeAddress_padded hlib e.local_unmapped
  have hports' : normalizePort e.remotePort "TCP认证远端端口" = .ok e.remotePort ∧
      normalizePort e.localPort "TCP认证本地端口" = .ok e.localPort :=
    ⟨normalizePort_eq_ok_iff.mpr ⟨e.remotePort_valid, rfl⟩,
      normalizePort_eq_ok_iff.mpr ⟨e.localPort_valid, rfl⟩⟩
  rw [decodeAddress_padded hlib e.remote_unmapped, hlocalEnd, hports'.1, hports'.2]
  simp only [bind, Except.bind, ne_eq, if_neg hknown]
  rfl

/-- A header that is accepted is the one of the ends that are found in it. -/
theorem decode_eq_ok (hlib : lib.Converts) (htoken : token.length = capabilityBytes) {m : Metadata}
    (h : decodeTcpAuthForwardHeader lib header token = .ok m) :
    ∃ e : Endpoints, header = e.header token ∧ m = e.metadata lib := by
  unfold decodeTcpAuthForwardHeader at h
  rw [normalizeCapability_of_length htoken] at h
  obtain ⟨hlen, h⟩ := ite_error_eq_ok.mp h
  obtain ⟨hmagic, h⟩ := ite_error_eq_ok.mp h
  obtain ⟨hver, h⟩ := ite_error_eq_ok.mp h
  obtain ⟨_, h⟩ := ite_error_eq_ok.mp h
  obtain ⟨hsize, h⟩ := ite_error_eq_ok.mp h
  obtain ⟨hresv, h⟩ := ite_error_eq_ok.mp h
  obtain ⟨hcap, h⟩ := ite_error_eq_ok.mp h
  rw [not_not] at hlen hmagic hver hsize hresv hcap
  obtain ⟨_, hremote, h⟩ := bind_ok.mp h
  obtain ⟨_, hrport, h⟩ := bind_ok.mp h
  obtain ⟨_, hlocal, h⟩ := bind_ok.mp h
  obtain ⟨_, hlport, h⟩ := bind_ok.mp h
  obtain ⟨hrvalid, rfl⟩ := normalizePort_eq_ok_iff.mp hrport
  obtain ⟨hlvalid, rfl⟩ := normalizePort_eq_ok_iff.mp hlport
  have hlens := fun offset length hend => @length_field header offset length hlen hend
  have hknown : ofBytes (field header 5 1) = 4 ∨ ofBytes (field header 5 1) = 6 := by omega
  obtain ⟨r, hrfam, hrmap, hrbytes, rfl⟩ :=
    decodeAddress_eq_ok hlib (hlens 16 16 (by decide)) hknown hremote
  obtain ⟨l, hlfam, hlmap, hlbytes, rfl⟩ :=
    decodeAddress_eq_ok hlib (hlens 32 16 (by decide)) hknown hlocal
  refine ⟨⟨r, l, _, _, hlfam.trans hrfam.symm, hrmap, hlmap, hrvalid, hlvalid⟩, ?_, ?_⟩
  · have hbyte : field header 5 1 = [UInt8.ofNat r.family] := by
      refine ofBytes_inj (hlens 5 1 (by decide)) ?_
      rw [← hrfam]
      rcases r.family_cases with heq | heq <;> rw [heq] <;> rfl
    have hzero : field header 12 4 = uint32be 0 := ofBytes_inj (hlens 12 4 (by decide)) hresv
    have hflds := eq_fields hlen
    rw [hmagic, hver, hbyte, hcap, hrbytes, hlbytes, hzero,
      eq_uint16be (hlens 6 2 (by decide)) hsize (by decide)] at hflds
    rw [header_eq]
    rw [← eq_uint16be (hlens 8 2 (by decide)) rfl (by omega),
      ← eq_uint16be (hlens 10 2 (by decide)) rfl (by omega)]
    exact hflds
  · rw [← Except.ok.inj h]
    simp [Endpoints.metadata, hrfam]

theorem encodeAddress_eq_ok (hlib : lib.Converts) {text : String} {family : ℕ} {bytes : Buffer}
    (h : encodeAddress lib text family = .ok bytes) :
    ∃ a, lib.parse text = some a ∧ a.family = family ∧ a.isIPv4Mapped = false ∧
      bytes = a.padded := by
  unfold encodeAddress at h
  split at h
  · cases h
  · rename_i a hparse
    split at h
    · cases h
    · rename_i hkind
      rw [not_or, not_not, not_and, isMapped_eq hlib] at hkind
      refine ⟨a, hparse, hkind.1, ?_, (Except.ok.inj h).symm⟩
      cases a with
      | ipv4 _ => rfl
      | ipv6 _ => simpa using hkind.2 hkind.1.symm

/-- What is encoded is decoded, with the addresses in the form in which the library prints them. -/
theorem decode_encode (hlib : lib.Converts) {m : Metadata}
    (h : encodeTcpAuthForwardHeader lib m token = .ok header) :
    ∃ e : Endpoints, header = e.header token ∧
      decodeTcpAuthForwardHeader lib header token = .ok (e.metadata lib) ∧
      m.family = e.remote.family ∧ lib.parse m.remoteAddress = some e.remote ∧
      m.remotePort = e.remotePort ∧ lib.parse m.localAddress = some e.localEnd ∧
      m.localPort = e.localPort := by
  unfold encodeTcpAuthForwardHeader at h
  split at h
  · cases h
  obtain ⟨_, hcap, h⟩ := bind_ok.mp h
  obtain ⟨_, hrport, h⟩ := bind_ok.mp h
  obtain ⟨_, hlport, h⟩ := bind_ok.mp h
  obtain ⟨_, hremote, h⟩ := bind_ok.mp h
  obtain ⟨_, hlocal, h⟩ := bind_ok.mp h
  obtain ⟨hrvalid, rfl⟩ := normalizePort_eq_ok_iff.mp hrport
  obtain ⟨hlvalid, rfl⟩ := normalizePort_eq_ok_iff.mp hlport
  obtain ⟨r, hrparse, hrfam, hrmap, rfl⟩ := encodeAddress_eq_ok hlib hremote
  obtain ⟨l, hlparse, hlfam, hlmap, rfl⟩ := encodeAddress_eq_ok hlib hlocal
  unfold normalizeCapability at hcap
  split at hcap
  · cases hcap
  rename_i htoken
  cases hcap
  let e : Endpoints :=
    ⟨r, l, _, _, hlfam.trans hrfam.symm, hrmap, hlmap, hrvalid, hlvalid⟩
  have hhdr : header = e.header token := by
    rw [← Except.ok.inj h, ← hrfam]
    rfl
  refine ⟨e, hhdr, ?_, hrfam.symm, hrparse, rfl, hlparse, rfl⟩
  rw [hhdr]
  exact decode_header e hlib (not_not.mp htoken)

theorem encode_metadata (hlib : lib.Converts) (e : Endpoints) (h : token.length = capabilityBytes) :
    encodeTcpAuthForwardHeader lib (e.metadata lib) token = .ok (e.header token) := by
  have henc : ∀ a : Address, a.isIPv4Mapped = false →
      encodeAddress lib (lib.print a) a.family = .ok a.padded := by
    intro a hmapped
    unfold encodeAddress
    rw [hlib.parse_print]
    dsimp only
    rw [if_neg (by simp [isMapped_eq hlib, hmapped])]
  have hlocal := henc e.localEnd e.local_unmapped
  rw [e.family_eq] at hlocal
  have hknown := e.remote.family_known
  unfold encodeTcpAuthForwardHeader
  simp only [Endpoints.metadata, if_neg hknown, normalizeCapability_of_length h,
    normalizePort_eq_ok_iff.mpr ⟨e.remotePort_valid, rfl⟩,
    normalizePort_eq_ok_iff.mpr ⟨e.localPort_valid, rfl⟩, henc e.remote e.remote_unmapped, hlocal]
  rfl

/-! ## The check of the peer -/

variable {srv : Server} {keeps : Peer → Buffer → Bool}

/-- `decodeTcpAuthForwardHeader` and `validatePeerMetadata`, as `onData` calls them. -/
def Server.check (srv : Server) (header : Buffer) : Except String Peer :=
  decodeTcpAuthForwardHeader srv.lib header srv.forwardCapability >>= srv.validatePeerMetadata

variable (hlib : srv.lib.Converts) (htoken : srv.forwardCapability.length = capabilityBytes)

section

include hlib

theorem covers_iff (remote : Address) (profile : Profile) :
    srv.covers remote profile ↔ srv.Knows remote profile := by
  unfold Server.covers Server.Knows
  cases hpeer : srv.lib.parseCIDR profile.peer with
  | none => simp
  | some peer =>
    obtain ⟨network, mask⟩ := peer
    by_cases hkind : network.kind = remote.kind
    · simp [hkind, hlib.matchNetwork_eq _ _ _ hkind]
    · simp [hkind]

theorem validatePeerMetadata_isOk_iff (e : Endpoints) :
    (∃ peer, srv.validatePeerMetadata (e.metadata srv.lib) = .ok peer) ↔
      e.localPort = srv.listenPort ∧ ∃ profile ∈ srv.profiles, srv.Knows e.remote profile := by
  simp only [← covers_iff hlib]
  unfold Server.validatePeerMetadata
  simp only [Endpoints.metadata, hlib.parse_print]
  by_cases hport : e.localPort = srv.listenPort
  · simp only [hport, ne_eq, not_true_eq_false, if_false, true_and]
    cases hfind : srv.profiles.find? _ with
    | none =>
      have hnone := find?_eq_none.mp hfind
      simp only [reduceCtorEq, exists_false, false_iff, not_exists, not_and]
      exact hnone
    | some profile =>
      refine iff_of_true ⟨_, rfl⟩ ⟨profile, mem_of_find?_eq_some hfind, ?_⟩
      exact find?_some hfind
  · simp [hport]

include htoken

theorem check_isOk_iff (header : Buffer) :
    (∃ peer, srv.check header = .ok peer) ↔ srv.Admits header := by
  constructor
  · rintro ⟨peer, h⟩
    obtain ⟨m, hdec, hvali⟩ := bind_ok.mp h
    obtain ⟨e, hhdr, rfl⟩ := decode_eq_ok hlib htoken hdec
    exact ⟨e, hhdr, (validatePeerMetadata_isOk_iff hlib e).mp ⟨peer, hvali⟩⟩
  · rintro ⟨e, rfl, hpeer⟩
    obtain ⟨peer, hvali⟩ := (validatePeerMetadata_isOk_iff hlib e).mpr hpeer
    exact ⟨peer, bind_ok.mpr ⟨_, decode_header e hlib htoken, hvali⟩⟩

omit hlib in
theorem length_of_admits (h : srv.Admits header) : header.length = headerBytes := by
  obtain ⟨e, rfl, _⟩ := h
  exact length_header e htoken

end

/-! ## The socket -/

theorem isPrefix_arrived (bytes : Buffer) (events : List Event) :
    bytes <+: arrived bytes events := by
  induction events generalizing bytes with
  | nil => exact prefix_refl _
  | cons event _ ih =>
    cases event with
    | data _ => exact (prefix_append ..).trans (ih _)
    | ended => exact prefix_refl _
    | timeout | _ =>
      simp only [arrived]
      split
      · exact prefix_refl _
      · exact ih _

theorem take_arrived {bytes : Buffer} (h : headerBytes ≤ bytes.length) (events : List Event) :
    (arrived bytes events).take headerBytes = bytes.take headerBytes := by
  obtain ⟨_, heq⟩ := isPrefix_arrived bytes events
  rw [← heq, take_append_of_le_length h]

namespace Socket

/-- A closed socket whose header was not accepted. -/
def gone : Socket := { finished := true, closed := true }

def waiting (header : Buffer) : Socket := { header }

def handed (peer : Peer) (initial later : Buffer) (closed : Bool) : Socket :=
  { finished := true, closed, calls := [(peer, initial)], later }

theorem run_gone (events : List Event) : gone.run srv keeps events = gone :=
  foldl_fixed' (fun event => by cases event <;> rfl) events

theorem run_handed_closed (peer : Peer) (initial later : Buffer) (events : List Event) :
    (handed peer initial later true).run srv keeps events = handed peer initial later true :=
  foldl_fixed' (fun event => by cases event <;> rfl) events

theorem run_handed (peer : Peer) (initial later : Buffer) (events : List Event) {bytes : Buffer}
    (h : headerBytes ≤ bytes.length) :
    ∃ closed, (handed peer initial later false).run srv keeps events =
      handed peer initial (later ++ (arrived bytes events).drop bytes.length) closed := by
  induction events generalizing later bytes with
  | nil => exact ⟨false, by simp [arrived, run]⟩
  | cons event rest ih =>
    cases event with
    | data chunk =>
      have hmore : headerBytes ≤ (bytes ++ chunk).length := by
        rw [length_append]
        omega
      obtain ⟨closed, hrun⟩ := ih _ hmore
      refine ⟨closed, ?_⟩
      have hsplit : chunk ++ (arrived (bytes ++ chunk) rest).drop (bytes ++ chunk).length =
          (arrived (bytes ++ chunk) rest).drop bytes.length := by
        obtain ⟨_, heq⟩ := isPrefix_arrived _ rest
        rw [← heq, drop_left, append_assoc, drop_left]
      show (handed peer initial _ false).run srv keeps rest = _
      rw [hrun, append_assoc, hsplit]
      rfl
    | ended =>
      refine ⟨true, ?_⟩
      show (handed peer initial later true).run srv keeps rest = _
      rw [run_handed_closed, arrived, drop_length, List.append_nil]
    | timeout | _ =>
      obtain ⟨closed, hrun⟩ := ih later h
      refine ⟨closed, ?_⟩
      rw [arrived, if_neg (by omega)]
      exact hrun

/-- A chunk that does not complete the header is kept, one that does decides. -/
theorem onData_waiting {bytes : Buffer} (h : bytes.length < headerBytes) (chunk : Buffer) :
    (waiting bytes).onData srv keeps chunk =
      if (bytes ++ chunk).length < headerBytes then waiting (bytes ++ chunk)
      else
        match srv.check ((bytes ++ chunk).take headerBytes) with
        | .error _ => gone
        | .ok peer =>
          let initial := (bytes ++ chunk).drop headerBytes
          handed peer initial [] (!keeps peer initial) := by
  have htake : bytes ++ chunk.take (min (headerBytes - bytes.length) chunk.length) =
      (bytes ++ chunk).take headerBytes := by
    rw [List.take_append, take_of_length_le (le_of_lt h), ← take_eq_take_min]
  have hdrop : headerBytes ≤ (bytes ++ chunk).length →
      chunk.drop (min (headerBytes - bytes.length) chunk.length) =
        (bytes ++ chunk).drop headerBytes := by
    intro hle
    rw [length_append] at hle
    rw [drop_append, drop_eq_nil_of_le (le_of_lt h), nil_append, min_eq_left (by omega)]
  unfold onData
  simp only [waiting, htake, length_take]
  by_cases hfull : (bytes ++ chunk).length < headerBytes
  · rw [if_pos hfull, if_pos (by omega), take_of_length_le (le_of_lt hfull)]
  · rw [if_neg hfull, if_neg (by omega), hdrop (by omega)]
    unfold Server.check
    generalize decodeTcpAuthForwardHeader srv.lib _
      srv.forwardCapability >>= srv.validatePeerMetadata = result
    cases result <;> rfl

theorem handsOver_gone {stream : Buffer} {ended : Bool}
    (h : ¬ srv.Admits (stream.take headerBytes)) : HandsOver srv keeps stream ended gone where
  once := Nat.zero_le 1
  called_iff := iff_of_false (fun hne => hne rfl) h
  read_isPrefix := List.nil_prefix
  read_eq := nofun
  untouched := fun _ => rfl
  closed := fun _ _ => rfl

theorem handsOver_handed {stream initial later : Buffer} {ended closed : Bool} {peer : Peer}
    (hadm : srv.Admits (stream.take headerBytes))
    (hstart : initial ++ later <+: stream.drop headerBytes)
    (heq : keeps peer initial → initial ++ later = stream.drop headerBytes) :
    HandsOver srv keeps stream ended (handed peer initial later closed) where
  once := le_rfl
  called_iff := iff_of_true (cons_ne_nil _ _) hadm
  read_isPrefix := by
    rw [read, handed, flatMap_singleton]
    exact hstart
  read_eq := by
    intro call hmem hkeeps
    cases mem_singleton.mp hmem
    rw [read, handed, flatMap_singleton]
    exact heq hkeeps
  untouched := fun hnil => absurd hnil (cons_ne_nil _ _)
  closed := fun hnil => absurd hnil (cons_ne_nil _ _)

include htoken

theorem not_admits_of_short {stream : Buffer} (h : stream.length < headerBytes) :
    ¬ srv.Admits (stream.take headerBytes) := by
  intro hadm
  have hlen := length_of_admits htoken hadm
  rw [length_take] at hlen
  omega

include hlib

/-- The header is complete: the stream decides, and the handler reads what is behind it. -/
theorem handsOver_complete {bytes : Buffer} (h : headerBytes ≤ bytes.length) (rest : List Event)
    (ended : Bool) : HandsOver srv keeps (arrived bytes rest) ended
      (Socket.run srv keeps
        (match srv.check (bytes.take headerBytes) with
          | .error _ => gone
          | .ok peer =>
            handed peer (bytes.drop headerBytes) [] (!keeps peer (bytes.drop headerBytes)))
        rest) := by
  have hcheck := check_isOk_iff hlib htoken (bytes.take headerBytes)
  rw [← take_arrived h] at hcheck ⊢
  have hrest : bytes.drop headerBytes ++ (arrived bytes rest).drop bytes.length =
      (arrived bytes rest).drop headerBytes := by
    obtain ⟨_, heq⟩ := isPrefix_arrived bytes rest
    rw [← heq, drop_left, drop_append_of_le_length h]
  cases hpeer : srv.check _ with
  | error _ =>
    rw [hpeer] at hcheck
    rw [run_gone]
    exact handsOver_gone fun hadm => by simpa using hcheck.mpr hadm
  | ok peer =>
    have hadm := hcheck.mp ⟨peer, hpeer⟩
    dsimp only
    cases hkeeps : keeps peer _ with
    | true =>
      obtain ⟨_, hrun⟩ := @run_handed srv keeps peer _ [] rest bytes h
      rw [Bool.not_true, hrun]
      exact handsOver_handed hadm (hrest ▸ prefix_refl _) fun _ => hrest
    | false =>
      rw [Bool.not_false, run_handed_closed]
      refine handsOver_handed hadm ?_ fun hkept => absurd hkept (by simp [hkeeps])
      rw [List.append_nil, ← hrest]
      exact prefix_append ..

theorem handsOver_waiting {bytes : Buffer} (h : bytes.length < headerBytes) (events : List Event) :
    HandsOver srv keeps (arrived bytes events) (events.any Event.ends)
      ((waiting bytes).run srv keeps events) := by
  induction events generalizing bytes with
  | nil =>
    exact ⟨Nat.zero_le 1, iff_of_false (fun hne => hne rfl) (not_admits_of_short htoken h),
      List.nil_prefix, nofun, fun _ => rfl,
      fun _ hended => absurd hended (by simp [arrived]; omega)⟩
  | cons event rest ih =>
    cases event with
    | data chunk =>
      show HandsOver srv keeps _ (rest.any Event.ends)
        (((waiting bytes).onData srv keeps chunk).run srv keeps rest)
      rw [onData_waiting h]
      split
      · rename_i hshort
        exact ih hshort
      · rename_i hfull
        exact handsOver_complete hlib htoken (Nat.le_of_not_lt hfull) rest _
    | ended =>
      show HandsOver srv keeps bytes true (gone.run srv keeps rest)
      rw [run_gone]
      exact handsOver_gone (not_admits_of_short htoken h)
    | timeout | _ =>
      show HandsOver srv keeps
        (if bytes.length < headerBytes then bytes else arrived bytes rest) true
        (gone.run srv keeps rest)
      rw [run_gone, if_pos h]
      exact handsOver_gone (not_admits_of_short htoken h)

end Socket

/-- A header that was encoded is decoded to the metadata, with the addresses as the library prints
them. A socket that the server takes is handed over with its stream, and one that it does not take
is closed. -/
theorem handoff_exact (srv : Server) (hlib : srv.lib.Converts) (keeps : Peer → Buffer → Bool)
    (stopping : Bool) (pending : ℕ) (events : List Event) :
    (∀ (e : Endpoints) (token : Buffer), token.length = capabilityBytes →
      encodeTcpAuthForwardHeader srv.lib (e.metadata srv.lib) token = .ok (e.header token) ∧
      decodeTcpAuthForwardHeader srv.lib (e.header token) token = .ok (e.metadata srv.lib)) ∧
    (∀ (m : Metadata) (token header : Buffer),
      encodeTcpAuthForwardHeader srv.lib m token = .ok header →
        ∃ e : Endpoints, header = e.header token ∧
          decodeTcpAuthForwardHeader srv.lib header token = .ok (e.metadata srv.lib) ∧
          m.family = e.remote.family ∧ srv.lib.parse m.remoteAddress = some e.remote ∧
          m.remotePort = e.remotePort ∧ srv.lib.parse m.localAddress = some e.localEnd ∧
          m.localPort = e.localPort) ∧
    (srv.Takes stopping pending →
      HandsOver srv keeps (arrived [] events) (events.any Event.ends)
        ((srv.acceptInternalSocket stopping pending).run srv keeps events)) ∧
    (¬ srv.Takes stopping pending →
      let s := (srv.acceptInternalSocket stopping pending).run srv keeps events
      s.calls = [] ∧ s.read = [] ∧ s.closed) := by
  refine ⟨fun e token htoken => ?_, fun m token header h => ?_, fun htakes => ?_, fun htakes => ?_⟩
  · exact ⟨encode_metadata hlib e htoken, decode_header e hlib htoken⟩
  · exact decode_encode hlib h
  · unfold Server.acceptInternalSocket
    rw [if_pos htakes]
    exact Socket.handsOver_waiting hlib htakes.2.1 (by decide) events
  · unfold Server.acceptInternalSocket
    rw [if_neg htakes]
    have hgone : Socket.gone.run srv keeps events = Socket.gone := Socket.run_gone events
    unfold Socket.gone at hgone
    rw [hgone]
    exact ⟨rfl, rfl, rfl⟩

/-! ## A sample server -/

/-- A server of one profile, whose network is that of `10.0.0.0/8`. -/
def sample : Server where
  lib := plain
  authType := .tcpAo
  listenPort := 179
  profiles := [⟨none, none, "10.0.0.0/8"⟩]
  forwardCapability := List.replicate 32 7
  maxPendingHeaders := 256

def sampleEnds : Endpoints where
  remote := .ipv4 #v[10, 0, 0, 1]
  localEnd := .ipv4 #v[10, 0, 0, 2]
  remotePort := 40000
  localPort := 179
  family_eq := rfl
  remote_unmapped := rfl
  local_unmapped := rfl
  remotePort_valid := by decide
  localPort_valid := by decide

def sampleHeader : Buffer := sampleEnds.header sample.forwardCapability

theorem admits_sampleHeader : sample.Admits sampleHeader :=
  ⟨sampleEnds, rfl, rfl, _, mem_singleton_self _, .ipv4 #v[10, 0, 0, 0], 8, by decide +kernel, rfl,
    by decide⟩

/-- The handler reads what came with the header and behind it. -/
theorem handoff_exact_sample :
    ((sample.acceptInternalSocket false 0).run sample (fun _ _ => true)
      [.data (sampleHeader ++ [1, 2]), .data [3], .timeout]).read = [1, 2, 3] := by
  have hres := (handoff_exact sample plain_converts (fun _ _ => true) false 0
    [.data (sampleHeader ++ [1, 2]), .data [3], .timeout]).2.2.1 (by decide)
  obtain ⟨call, hmem⟩ := exists_mem_of_ne_nil _ (hres.called_iff.mpr admits_sampleHeader)
  exact hres.read_eq call hmem rfl

/-- A header that the server admits is not enough if its last byte comes after the timeout, or if
too many sockets wait for theirs. -/
theorem admitted_not_handed :
    sample.Admits ((sampleHeader.take 79 ++ sampleHeader.drop 79).take headerBytes) ∧
    ((sample.acceptInternalSocket false 0).run sample (fun _ _ => true)
      [.data (sampleHeader.take 79), .timeout, .data (sampleHeader.drop 79)]).calls.length = 0 ∧
    ((sample.acceptInternalSocket false 256).run sample (fun _ _ => true)
      [.data sampleHeader]).calls.length = 0 := by
  refine ⟨?_, by decide, by decide⟩
  exact admits_sampleHeader

end TcpAuth
