import NetNexus.Bgp.Proofs.EvpnEntryProofs
import NetNexus.Bgp.Proofs.RdProofs

/-!
# Normalized VPN and EVPN routes

What the normalizers make sure of, and from it that the NLRIs of the routes they let through are
read back.
-/

namespace Bgp

open Control Ip Node
open List hiding Vector

variable {ipaddr : Ipaddr}

/-! ## Addresses -/

theorem networkAddress_networkAddress (mask : ℕ) (address : Address) :
    networkAddress mask (networkAddress mask address) = networkAddress mask address := by
  cases address with
  | ipv4 _ =>
    refine congrArg Address.ipv4 (Vector.ext fun i hi => ?_)
    simp [keepBits_keepBits]
  | ipv6 _ =>
    refine congrArg Address.ipv6 (Vector.ext fun i hi => ?_)
    simp [keepBits_keepBits]

theorem kind_networkAddress (mask : ℕ) (address : Address) :
    (networkAddress mask address).kind = address.kind := by
  cases address <;> rfl

theorem parseAddress_eq_ok {value name : String} {kind : Option Kind} {address : Address}
    (h : parseAddress ipaddr value name kind = .ok address) : ∀ k ∈ kind, address.kind = k := by
  unfold parseAddress at h
  split at h
  · obtain ⟨hkind, h⟩ := ite_eq_ok_error.mp h
    cases h
    rintro k rfl
    simpa [eq_comm] using hkind
  · cases h

/-- The text of an address is parsed to it, as white space is no part of it. -/
theorem parseAddress_print (hlib : ipaddr.Prints) (address : Address) (name : String) :
    parseAddress ipaddr (ipaddr.print address) name = .ok address := by
  have hspace : ∀ c ∈ (ipaddr.print address).toList, isWhiteSpace c = false := by
    intro c hc
    cases address with
    | ipv4 bytes =>
      rw [hlib.print_ipv4] at hc
      exact isWhiteSpace_of_mem_dotted c hc
    | ipv6 bytes =>
      rcases hlib.digits bytes c hc with rfl | hhex
      · rfl
      · exact isWhiteSpace_of_hexValue (Option.isSome_iff_ne_none.mp hhex)
  rw [parseAddress, trim_of_forall hspace, String.ofList_toList, hlib.parse_print]
  rfl

theorem normalizePrefix_eq_ok (hlib : ipaddr.ReadsBack) {ip : String} {mask : ℤ}
    {kind : Option Kind} {network : Address} {length : ℕ}
    (h : normalizePrefix ipaddr ip mask kind = .ok (network, length)) :
    length ≤ network.kind.bits ∧ (∀ k ∈ kind, network.kind = k) ∧
      networkAddress length network = network := by
  obtain ⟨parsed, hparse, h⟩ := bind_ok.mp h
  obtain ⟨mask, -, h⟩ := bind_ok.mp h
  have hmask := mask.2.2
  rw [hlib.network_print parsed mask.1 hmask] at h
  cases h
  rw [kind_networkAddress]
  exact ⟨hmask, parseAddress_eq_ok hparse, networkAddress_networkAddress ..⟩

/-! ## VPN -/

/-- A network address of the family, a length in its bounds and an RD whose numbers fit. -/
structure VpnRoute.Normal (afi : ℕ) (route : VpnRoute) : Prop where
  family : afi = 1 ∨ afi = 2
  rd : route.rd.Normal
  mask : route.mask ≤ maxPrefixLength afi
  length : route.ip.toByteArray.length = addressSize afi
  network : networkAddress route.mask route.ip = route.ip

variable {afi : ℕ} {route : Route}

theorem normalizeVpnRoute_normal (hlib : ipaddr.ReadsBack) {vpn : VpnRoute}
    (h : normalizeVpnRoute ipaddr route afi = .ok vpn) : vpn.Normal afi := by
  obtain ⟨_, h⟩ := ite_error_eq_ok.mp h
  obtain ⟨⟨network, mask⟩, hpre, h⟩ := bind_ok.mp h
  obtain ⟨_, hrd, h⟩ := bind_ok.mp h
  obtain ⟨_, -, h⟩ := bind_ok.mp h
  obtain ⟨_, -, h⟩ := bind_ok.mp h
  cases h
  obtain ⟨hmask, hkind, hnet⟩ := normalizePrefix_eq_ok hlib hpre
  have hafi : afi = 1 ∨ afi = 2 := by omega
  have hbits : network.kind.bits = maxPrefixLength afi := by
    rw [hkind _ rfl]
    rcases hafi with rfl | rfl <;> rfl
  have hlen : 8 * network.toByteArray.length = maxPrefixLength afi := bits_kind network ▸ hbits
  refine ⟨hafi, normalizeRd_normal hrd, hbits ▸ hmask, ?_, hnet⟩
  rcases hafi with rfl | rfl
  · exact show network.toByteArray.length = 4 from Nat.eq_of_mul_eq_mul_left (by decide) hlen
  · exact show network.toByteArray.length = 16 from Nat.eq_of_mul_eq_mul_left (by decide) hlen

/-- The bytes are one NLRI, perhaps behind a path identifier, that is read without errors to its
last byte. -/
def ReadsWhole (afi safi : ℕ) (isWithdrawn addPath : Bool) (bytes : Buffer) (pathId : ℕ)
    (nlri : Nlri) : Prop :=
  ∃ first tail, takePathId addPath bytes = some (pathId, first :: tail) ∧
    (parseNlriEntry afi safi isWithdrawn first tail).nlri = nlri ∧
    (parseNlriEntry afi safi isWithdrawn first tail).errors = [] ∧
    (parseNlriEntry afi safi isWithdrawn first tail).consumed = (first :: tail).length

theorem takePathId_optionalPathId {addPath : Bool} {pathId : ℕ} (h : pathId ≤ 0xffffffff)
    (buffer : Buffer) : takePathId addPath (optionalPathId addPath pathId ++ buffer) =
      some (if addPath then pathId else 0, buffer) := by
  cases addPath with
  | false => rfl
  | true =>
    have hvalue : ofBytes (uint32be pathId) = pathId := ofBytes_uint32be (by omega)
    show (if (uint32be pathId ++ buffer).length < 4 then none else
      some (ofBytes ((uint32be pathId ++ buffer).take 4), (uint32be pathId ++ buffer).drop 4)) = _
    rw [take_left' (length_uint32be _), hvalue]
    rfl

theorem parseNlriEntry_vpn (hafi : afi = 1 ∨ afi = 2) (first : UInt8) (tail : Buffer) :
    parseNlriEntry afi 128 false first tail = parseRouteDistinguisherNlri afi first tail := by
  rcases hafi with rfl | rfl <;> rfl

theorem parseNlriEntry_vpnWithdrawal (hafi : afi = 1 ∨ afi = 2) (first : UInt8) (tail : Buffer) :
    parseNlriEntry afi 128 true first tail =
      parseRouteDistinguisherWithdrawalNlri afi first tail := by
  rcases hafi with rfl | rfl <;> rfl

theorem encodeVpnNlri_eq (hlib : ipaddr.ReadsBack) {vpn : VpnRoute}
    (h : normalizeVpnRoute ipaddr route afi = .ok vpn) (withdraw includePathId : Bool) :
    encodeVpnNlri ipaddr route afi withdraw includePathId =
      .ok (optionalPathId includePathId vpn.pathId.1 ++ UInt8.ofNat (24 + 64 + vpn.mask) ::
        ((if withdraw then [0x80, 0, 0] else uintBE 3 (vpn.label.1 * 16 + 1)) ++
          (vpn.rd.bytes ++ vpn.ip.toByteArray.take (prefixSize vpn.mask)))) := by
  have hnorm := normalizeVpnRoute_normal hlib h
  rw [encodeVpnNlri, h]
  show (parseAddress ipaddr (ipaddr.print vpn.ip) _ >>= fun address =>
    rdStringToBytes ipaddr (vpn.rd.print ipaddr) >>= fun rd => _) = _
  rw [parseAddress_print hlib.toPrints, rdStringToBytes_print hlib hnorm.rd]
  show Except.ok _ = _
  simp

/-- An encoded VPN route is read back, by the parser of announcements and, if it is encoded for a
withdrawal, by the parser of withdrawals. -/
theorem encodeVpnNlri_reads (hlib : ipaddr.ReadsBack) {route : Route} {afi : ℕ} {vpn : VpnRoute}
    (h : normalizeVpnRoute ipaddr route afi = .ok vpn) (addPath : Bool) :
    ∃ announced withdrawn rd,
      encodeVpnNlri ipaddr route afi false addPath = .ok announced ∧
      encodeVpnNlri ipaddr route afi true addPath = .ok withdrawn ∧
      rdBufferToString rd = vpn.rd.print ipaddr ∧
      ReadsWhole afi 128 false addPath announced (if addPath then vpn.pathId.1 else 0)
        (.vpn (some rd) [bottomLabel vpn.label.1] vpn.mask vpn.ip.toByteArray) ∧
      ReadsWhole afi 128 true addPath withdrawn (if addPath then vpn.pathId.1 else 0)
        (.vpnWithdrawal (some rd) [0x80, 0, 0] vpn.mask vpn.ip.toByteArray) := by
  have hnorm := normalizeVpnRoute_normal hlib h
  have hrd : rdBufferToString vpn.rd.bytes = vpn.rd.print ipaddr :=
    (rdBufferToString_bytes hnorm.rd).trans (Rd.print_eq hlib.toPrints vpn.rd).symm
  have hnet : clearHostBits vpn.mask vpn.ip.toByteArray = vpn.ip.toByteArray := by
    rw [← toByteArray_networkAddress, hnorm.network]
  have hpid := vpn.pathId.2.2
  have hlen := length_take_prefixSize hnorm.length hnorm.mask
  refine ⟨_, _, vpn.rd.bytes, encodeVpnNlri_eq hlib h false addPath,
    encodeVpnNlri_eq hlib h true addPath, hrd,
    ⟨_, _, takePathId_optionalPathId hpid _, ?_⟩,
    ⟨_, _, takePathId_optionalPathId hpid _, ?_⟩⟩
  · have hentry := parseRouteDistinguisherNlri_append (length_rdBytes vpn.rd) hnorm.length
      hnorm.mask vpn.label.2.2 []
    rw [append_nil, hnet] at hentry
    rw [if_neg Bool.false_ne_true, parseNlriEntry_vpn hnorm.family, hentry]
    exact ⟨rfl, rfl, by simp [hlen, length_rdBytes]; omega⟩
  · have hentry := parseRouteDistinguisherWithdrawalNlri_append (length_rdBytes vpn.rd)
      hnorm.length hnorm.mask (show ([0x80, 0, 0]).length = 3 from rfl) []
    rw [append_nil, hnet] at hentry
    rw [if_pos rfl, parseNlriEntry_vpnWithdrawal hnorm.family, hentry]
    exact ⟨rfl, rfl, by simp [hlen, length_rdBytes]; omega⟩

/-- A route with host bits and an RD of an IPv4 address. -/
def vpnSample : Route :=
  { ip := "10.1.2.3", mask := 23, rd := some "192.0.2.1:7", label := some 100, pathId := some 9 }

theorem encodeVpnNlri_reads_sample :
    ∃ announced withdrawn rd,
      encodeVpnNlri plain vpnSample 1 false true = .ok announced ∧
      encodeVpnNlri plain vpnSample 1 true true = .ok withdrawn ∧
      rdBufferToString rd = "192.0.2.1:7" ∧
      ReadsWhole 1 128 false true announced 9 (.vpn (some rd) [⟨100, 0, true⟩] 23 [10, 1, 2, 0]) ∧
      ReadsWhole 1 128 true true withdrawn 9
        (.vpnWithdrawal (some rd) [0x80, 0, 0] 23 [10, 1, 2, 0]) := by
  have hnorm : normalizeVpnRoute plain vpnSample 1 =
      .ok ⟨.ipv4 #v[10, 1, 2, 0], 23, .ipv4 #v[192, 0, 2, 1] 7, ⟨100, by omega⟩, ⟨9, by omega⟩⟩ :=
        rfl
  exact encodeVpnNlri_reads plain_readsBack hnorm true

/-! ## EVPN -/

section

variable (hlib : ipaddr.ReadsBack)

include hlib

theorem ipPrefixFields_normal {esi : Vector UInt8 10} {tag : Within 0 0xffffffff}
    {label : LabelField} {fields : EvpnFields}
    (h : ipPrefixFields ipaddr route esi tag label = .ok fields) : fields.Normal := by
  obtain ⟨⟨ip, mask⟩, hpre, h⟩ := bind_ok.mp h
  dsimp only at h
  rw [parseAddress_print hlib.toPrints] at h
  change parseAddress ipaddr _ _ (some ip.kind) >>= _ = _ at h
  obtain ⟨gateway, hgate, h⟩ := bind_ok.mp h
  obtain ⟨hmask, -, hnet⟩ := normalizePrefix_eq_ok hlib hpre
  have hnorm : IsPrefix mask ip gateway := ⟨hmask, parseAddress_eq_ok hgate _ rfl, hnet⟩
  split at h
  · obtain ⟨_, -, h⟩ := bind_ok.mp h
    obtain ⟨-, h⟩ := ite_error_eq_ok.mp h
    cases h
    exact hnorm
  · cases h
    exact hnorm

theorem evpnFields_normal {encapsulation : Encapsulation} {rd : Rd} {fields : EvpnFields}
    (h : evpnFields ipaddr route encapsulation rd = .ok fields) : fields.Normal := by
  unfold evpnFields at h
  dsimp only at h
  split at h
  · obtain ⟨_, -, h⟩ := bind_ok.mp h
    obtain ⟨_, -, h⟩ := bind_ok.mp h
    obtain ⟨_, -, h⟩ := bind_ok.mp h
    split at h
    · obtain ⟨-, -, h⟩ := bind_ok.mp h
      cases h
      trivial
    · cases h
      trivial
  · obtain ⟨_, -, h⟩ := bind_ok.mp h
    obtain ⟨_, -, h⟩ := bind_ok.mp h
    obtain ⟨_, -, h⟩ := bind_ok.mp h
    obtain ⟨_, -, h⟩ := bind_ok.mp h
    obtain ⟨_, -, h⟩ := bind_ok.mp h
    split at h
    · cases h
      trivial
    · obtain ⟨_, -, h⟩ := bind_ok.mp h
      cases h
      trivial
  · obtain ⟨_, -, h⟩ := bind_ok.mp h
    split at h
    · obtain ⟨-, -, h⟩ := bind_ok.mp h
      obtain ⟨_, -, h⟩ := bind_ok.mp h
      cases h
      trivial
    · obtain ⟨_, -, h⟩ := bind_ok.mp h
      cases h
      trivial
  · obtain ⟨_, -, h⟩ := bind_ok.mp h
    obtain ⟨_, -, h⟩ := bind_ok.mp h
    obtain ⟨-, -, h⟩ := bind_ok.mp h
    cases h
    trivial
  · obtain ⟨_, -, h⟩ := bind_ok.mp h
    obtain ⟨_, -, h⟩ := bind_ok.mp h
    obtain ⟨_, -, h⟩ := bind_ok.mp h
    exact ipPrefixFields_normal hlib h

theorem normalizeEvpnRoute_normal {evpn : EvpnRoute}
    (h : normalizeEvpnRoute ipaddr route = .ok evpn) : evpn.rd.Normal ∧ evpn.fields.Normal := by
  obtain ⟨_, -, h⟩ := bind_ok.mp h
  obtain ⟨_, hrd, h⟩ := bind_ok.mp h
  obtain ⟨_, hflds, h⟩ := bind_ok.mp h
  obtain ⟨_, -, h⟩ := bind_ok.mp h
  cases h
  exact ⟨normalizeRd_normal hrd, evpnFields_normal hlib hflds⟩

theorem reread_eq (fields : EvpnFields) : fields.reread ipaddr = .ok fields := by
  have hread : ∀ address, reread ipaddr address = .ok address :=
    fun address => parseAddress_print hlib.toPrints address _
  cases fields with
  | autoDiscovery _ _ _ => rfl
  | macIp _ _ _ ip _ _ =>
    cases ip with
    | none => rfl
    | some address => simp [EvpnFields.reread, hread]
  | inclusiveMulticast _ _ | ethernetSegment _ _ | ipPrefix _ _ _ _ _ _ =>
    simp only [EvpnFields.reread, hread]
    rfl

/-- The path identifier of a route, which is 0 if it has none. -/
def EvpnRoute.pathIdValue (evpn : EvpnRoute) : ℕ := (evpn.pathId.map Subtype.val).getD 0

omit hlib in
theorem EvpnRoute.pathIdValue_le (evpn : EvpnRoute) : evpn.pathIdValue ≤ 0xffffffff := by
  obtain ⟨-, -, pathId⟩ := evpn
  cases pathId with
  | none => exact Nat.zero_le _
  | some pathId => exact pathId.2.2

theorem encodeEvpnNlri_eq {evpn : EvpnRoute}
    (h : normalizeEvpnRoute ipaddr route = .ok evpn) (includePathId : Bool) :
    encodeEvpnNlri ipaddr route includePathId =
      .ok (optionalPathId includePathId evpn.pathIdValue ++ evpn.fields.routeType ::
        (UInt8.ofNat (evpn.rd.bytes ++ evpn.fields.bytes).length ::
          (evpn.rd.bytes ++ evpn.fields.bytes))) := by
  rw [encodeEvpnNlri, h]
  show (rdStringToBytes ipaddr (evpn.rd.print ipaddr) >>= fun rd =>
    evpn.fields.reread ipaddr >>= fun fields => _) = _
  rw [rdStringToBytes_print hlib (normalizeEvpnRoute_normal hlib h).1, reread_eq hlib]
  rfl

end

/-- An encoded EVPN route is read back with the fields of its type. -/
theorem encodeEvpnNlri_reads (hlib : ipaddr.ReadsBack) {route : Route} {evpn : EvpnRoute}
    (h : normalizeEvpnRoute ipaddr route = .ok evpn) (isWithdrawn addPath : Bool) :
    ∃ bytes rd, encodeEvpnNlri ipaddr route addPath = .ok bytes ∧
      rdBufferToString rd = evpn.rd.print ipaddr ∧
      ReadsWhole 25 70 isWithdrawn addPath bytes (if addPath then evpn.pathIdValue else 0)
        (.evpn (evpn.fields.nlri rd)) := by
  obtain ⟨hrd, hflds⟩ := normalizeEvpnRoute_normal hlib h
  refine ⟨_, evpn.rd.bytes, encodeEvpnNlri_eq hlib h addPath, ?_, _, _,
    takePathId_optionalPathId evpn.pathIdValue_le _, ?_⟩
  · rw [rdBufferToString_bytes hrd, Rd.print_eq hlib.toPrints]
  have hentry := parseEvpnNlri_append (length_rdBytes evpn.rd) hflds rfl []
  rw [append_nil] at hentry
  have hparse : parseNlriEntry 25 70 isWithdrawn = parseEvpnNlri := rfl
  rw [hparse, hentry]
  exact ⟨rfl, rfl, by simp only [length_cons]; omega⟩

def evpnSample : Route :=
  { routeType := 5, ip := "10.1.2.3", mask := 23, rd := some "65000:7", vni := some 5000
    ethernetTagId := some 4, gatewayIp := "10.0.0.1", encapsulationType := some .vxlan }

theorem encodeEvpnNlri_reads_sample :
    ∃ bytes rd, encodeEvpnNlri plain evpnSample false = .ok bytes ∧
      rdBufferToString rd = "65000:7" ∧
      ReadsWhole 25 70 false false bytes 0 (.evpn
        { routeType := 5, rd := some rd, esi := some (List.replicate 10 0), ethernetTagId := some 4
          prefixLength := some 23, ipPrefix := some [10, 1, 2, 0], gatewayIp := some [10, 0, 0, 1]
          labels := [5000] }) := by
  have hnorm : normalizeEvpnRoute plain evpnSample =
      .ok ⟨.asn 65000 7, .ipPrefix (Vector.replicate 10 0) ⟨4, by omega⟩
        23 (.ipv4 #v[10, 1, 2, 0]) (.ipv4 #v[10, 0, 0, 1]) ⟨5000, by omega⟩, none⟩ := rfl
  exact encodeEvpnNlri_reads plain_readsBack hnorm false false

end Bgp
