import NetNexus.Bgp.Open
import NetNexus.Bgp.Proofs.SessionProofs
import NetNexus.Control.Fallible
import NetNexus.Ip.Proofs.IpUtilsProofs
import Mathlib.Data.List.Perm.Subperm

/-!
# Proofs: the exchange of OPENs

The builder writes a list of capabilities, each behind its own parameter, and the parser reads
such a list back. What decides whether two sessions agree is then only whether their AS numbers
survive in the two bytes of the field My-AS.
-/

namespace Bgp

open Capability Ip Node

variable {cap : Capability}

section Capabilities

open List

/-! ## One parameter -/

/-- A parameter that holds one capability. -/
def encodeCapability (code : ℕ) (value : Buffer) : Buffer :=
  buildBgpCapability 2 (value.length + 2) code value.length value

theorem parseCapabilities_single {code : ℕ} {value : Buffer} (hcode : code < 256)
    (hlen : value.length < 254) (hvalid : capabilityLengthValid code value.length) :
    parseCapabilities (value.length + 2) (UInt8.ofNat code :: UInt8.ofNat value.length :: value) =
      .ok [parseCapability code value] := by
  have hc : (UInt8.ofNat code).toNat = code := by simp [Nat.mod_eq_of_lt hcode]
  have hl : (UInt8.ofNat value.length).toNat = value.length := by
    simp [Nat.mod_eq_of_lt (show value.length < 256 by omega)]
  rw [parseCapabilities, hc, hl, if_neg (lt_irrefl _), if_neg (by simpa using hvalid),
    take_length, drop_length]
  rfl

theorem parseParameters_encodeCapability {code : ℕ} {value : Buffer} (hcode : code < 256)
    (hlen : value.length < 254) (hvalid : capabilityLengthValid code value.length)
    (fuel : ℕ) (rest : Buffer) :
    parseParameters false (fuel + 1) (encodeCapability code value ++ rest) =
      (parseParameters false fuel rest).map (parseCapability code value :: ·) := by
  have hl : Node.ofBytes [UInt8.ofNat (value.length + 2)] = value.length + 2 :=
    ofBytes_singleton (by omega)
  have hsingle := parseCapabilities_single hcode hlen hvalid
  have hrest : (UInt8.ofNat code :: UInt8.ofNat value.length :: (value ++ rest)).drop
      (value.length + 2) = rest := by simp
  have htake : (UInt8.ofNat code :: UInt8.ofNat value.length :: (value ++ rest)).take
      (value.length + 2) = UInt8.ofNat code :: UInt8.ofNat value.length :: value := by simp
  simp only [encodeCapability, buildBgpCapability, cons_append, nil_append,
    parseParameters, Bool.false_eq_true, if_false, length_cons, take_succ_cons,
    take_zero, drop_succ_cons, drop_zero, hl, hrest, htake]
  rw [if_neg (by omega), if_neg (by simp), hsingle]
  cases parseParameters false fuel rest <;> rfl

/-! ## The loop needs no more rounds than there are bytes -/

theorem parseParameters_fuel (extended : Bool) {fuel : ℕ} {bytes : Buffer}
    (h : bytes.length ≤ fuel) :
    parseParameters extended fuel bytes = parseParameters extended bytes.length bytes := by
  induction fuel using Nat.strong_induction_on generalizing bytes with
  | _ fuel ih =>
  match fuel, bytes with
  | 0, bytes =>
    rw [Nat.le_zero.mp h]
  | fuel + 1, [] => rfl
  | fuel + 1, _ :: rest =>
    have hrest : rest.length ≤ fuel := by simpa using h
    -- what is left behind a parameter needs no more rounds than `rest` has bytes
    have htail : ∀ n m, parseParameters extended fuel ((rest.drop n).drop m) =
        parseParameters extended rest.length ((rest.drop n).drop m) := by
      intro n m
      have hle : ((rest.drop n).drop m).length ≤ rest.length := by simp
      rw [ih fuel (Nat.lt_succ_self fuel) (hle.trans hrest),
        ih rest.length (Nat.lt_succ_of_le hrest) hle]
    simp only [length_cons, parseParameters, htail]

/-! ## The capabilities of a configuration -/

theorem AddrFamily.afiSafi_lt (family : AddrFamily) :
    family.afiSafi.1 < 2 ^ 16 ∧ family.afiSafi.2 < 2 ^ 8 := by
  cases family <;> decide

theorem Role.code_lt (role : Role) : role.code < 2 ^ 8 := by cases role <;> decide

theorem AddPathType.code_lt (mode : AddPathType) : mode.code < 2 ^ 8 := by cases mode <;> decide

/-- The code and the value of a capability. -/
def Capability.wire : Capability → ℕ × Buffer
  | .multiprotocolExtensions afi safi => (1, uint16be afi ++ uint16be safi)
  | .routeRefresh => (2, [])
  | .extendedNextHopEncoding nextHops =>
    (5, nextHops.flatMap fun t => uint16be t.afi ++ uint16be t.safi ++ uint16be t.ipType)
  | .bgpRole role => (9, [UInt8.ofNat role])
  | .fourOctetAs as4 => (0x41, uint32be as4)
  | .addPath addPaths =>
    (0x45, addPaths.flatMap fun t =>
      uint16be t.afi ++ [UInt8.ofNat t.safi, UInt8.ofNat t.sendReceive])
  | .other code length => (code, List.replicate length 0)

/-- The values fit into their fields, and a list of tuples is not empty and not too long. -/
def Capability.Fits : Capability → Prop
  | .multiprotocolExtensions afi safi => afi < 2 ^ 16 ∧ safi < 2 ^ 8
  | .routeRefresh => True
  | .extendedNextHopEncoding nextHops => nextHops ≠ [] ∧ nextHops.length ≤ 42 ∧
    ∀ t ∈ nextHops, t.afi < 2 ^ 16 ∧ t.safi < 2 ^ 16 ∧ t.ipType < 2 ^ 16
  | .bgpRole role => role < 2 ^ 8
  | .fourOctetAs as4 => as4 < 2 ^ 32
  | .addPath addPaths => addPaths ≠ [] ∧ addPaths.length ≤ 63 ∧
    ∀ t ∈ addPaths, t.afi < 2 ^ 16 ∧ t.safi < 2 ^ 8 ∧ t.sendReceive < 2 ^ 8
  | .other _ _ => False

theorem parseNextHops_flatMap {nextHops : List NextHopTuple}
    (h : ∀ t ∈ nextHops, t.afi < 2 ^ 16 ∧ t.safi < 2 ^ 16 ∧ t.ipType < 2 ^ 16) : parseNextHops
      (nextHops.flatMap fun t => uint16be t.afi ++ uint16be t.safi ++ uint16be t.ipType) =
      nextHops := by
  induction nextHops with
  | nil => rfl
  | cons t ts ih =>
    obtain ⟨hafi, hsafi, htype⟩ := h t mem_cons_self
    have hrest := ih fun u hu => h u (mem_cons_of_mem t hu)
    show (⟨ofBytes (uint16be t.afi), ofBytes (uint16be t.safi), ofBytes (uint16be t.ipType)⟩ :
      NextHopTuple) :: parseNextHops (ts.flatMap _) = _
    rw [ofBytes_uint16be hafi, ofBytes_uint16be hsafi, ofBytes_uint16be htype, hrest]

theorem parseAddPaths_flatMap {addPaths : List AddPathTuple}
    (h : ∀ t ∈ addPaths, t.afi < 2 ^ 16 ∧ t.safi < 2 ^ 8 ∧ t.sendReceive < 2 ^ 8) :
    parseAddPaths (addPaths.flatMap fun t =>
      uint16be t.afi ++ [UInt8.ofNat t.safi, UInt8.ofNat t.sendReceive]) = addPaths := by
  induction addPaths with
  | nil => rfl
  | cons t ts ih =>
    obtain ⟨hafi, hsafi, hmode⟩ := h t mem_cons_self
    have hrest := ih fun u hu => h u (mem_cons_of_mem t hu)
    show ⟨ofBytes (uint16be t.afi), _,
      _⟩ :: parseAddPaths (ts.flatMap _) = _
    rw [ofBytes_uint16be hafi, hrest, UInt8.toNat_ofNat_of_lt' hsafi,
      UInt8.toNat_ofNat_of_lt' hmode]

theorem length_flatMap_nextHops (nextHops : List NextHopTuple) :
    (nextHops.flatMap fun t => uint16be t.afi ++ uint16be t.safi ++ uint16be t.ipType).length =
      6 * nextHops.length := by
  simp [mul_comm]

theorem length_flatMap_addPaths (addPaths : List AddPathTuple) : (addPaths.flatMap fun t =>
    uint16be t.afi ++ [UInt8.ofNat t.safi, UInt8.ofNat t.sendReceive]).length =
    4 * addPaths.length := by
  simp [mul_comm]

theorem Capability.Fits.valid (h : cap.Fits) : cap.wire.1 < 256 ∧ cap.wire.2.length < 254 ∧
    capabilityLengthValid cap.wire.1 cap.wire.2.length := by
  cases cap with
  | multiprotocolExtensions _ _ | routeRefresh | bgpRole _ | fourOctetAs _ =>
    exact ⟨by simp [wire], by simp [wire], rfl⟩
  | other _ _ => exact h.elim
  | extendedNextHopEncoding _ | _ _ =>
    obtain ⟨_, _, -⟩ := h
    simp only [wire, length_flatMap_nextHops, length_flatMap_addPaths, capabilityLengthValid]
    refine ⟨by omega, by omega, ?_⟩
    simp
    omega

theorem Capability.Fits.parse (h : cap.Fits) : parseCapability cap.wire.1 cap.wire.2 = cap := by
  cases cap with
  | multiprotocolExtensions afi safi =>
    show multiprotocolExtensions (ofBytes (uint16be afi)) (ofBytes [UInt8.ofNat safi]) =
      _
    rw [ofBytes_uint16be h.1, ofBytes_singleton h.2]
  | routeRefresh => rfl
  | bgpRole role =>
    show bgpRole (ofBytes [UInt8.ofNat role]) = _
    rw [ofBytes_singleton h]
  | fourOctetAs as4 =>
    show fourOctetAs (ofBytes (uint32be as4)) = _
    rw [ofBytes_uint32be h]
  | other _ _ => exact h.elim
  | extendedNextHopEncoding _ =>
    exact congrArg _ (parseNextHops_flatMap h.2.2)
  | addPath _ => exact congrArg _ (parseAddPaths_flatMap h.2.2)

/-! ## The builder writes the capabilities one after the other -/

/-- Capabilities, each behind its own parameter. -/
def encodeAll (capabilities : List Capability) : Buffer :=
  capabilities.flatMap fun cap => encodeCapability cap.wire.1 cap.wire.2

@[simp] theorem encodeAll_nil : encodeAll [] = [] := rfl

@[simp] theorem encodeAll_append (xs ys : List Capability) :
    encodeAll (xs ++ ys) = encodeAll xs ++ encodeAll ys := flatMap_append

@[simp] theorem encodeAll_singleton (cap : Capability) :
    encodeAll [cap] = encodeCapability cap.wire.1 cap.wire.2 := flatMap_singleton ..

theorem parseParameters_encodeAll {capabilities : List Capability}
    (h : ∀ cap ∈ capabilities, cap.Fits) {fuel : ℕ} (rest : Buffer)
    (hfuel : (encodeAll capabilities ++ rest).length ≤ fuel) :
    parseParameters false fuel (encodeAll capabilities ++ rest) =
      (parseParameters false rest.length rest).map (capabilities ++ ·) := by
  induction capabilities generalizing fuel with
  | nil =>
    rw [encodeAll_nil, nil_append] at hfuel ⊢
    rw [parseParameters_fuel false hfuel]
    cases parseParameters false rest.length rest <;> rfl
  | cons cap caps ih =>
    have hfits := h cap mem_cons_self
    obtain ⟨hcode, hlen, hvalid⟩ := hfits.valid
    have hcons : encodeAll (cap :: caps) ++ rest =
        encodeCapability cap.wire.1 cap.wire.2 ++ (encodeAll caps ++ rest) := by
      rw [encodeAll, flatMap_cons, append_assoc]
      rfl
    rw [hcons] at hfuel ⊢
    cases fuel with
    | zero => simp [encodeCapability, buildBgpCapability] at hfuel
    | succ fuel =>
      have hle : (encodeAll caps ++ rest).length ≤ fuel := by
        simp only [encodeCapability, buildBgpCapability, length_append, length_cons] at hfuel ⊢
        omega
      rw [parseParameters_encodeCapability hcode hlen hvalid, hfits.parse,
        ih (fun c hc => h c (mem_cons_of_mem cap hc)) hle]
      cases parseParameters false rest.length rest <;> rfl

end Capabilities

namespace OpenConfig

open List

variable (config : OpenConfig)

theorem buildVpnFamily_eq (family : AddrFamily) :
    config.buildVpnFamily family = config.buildFamily family := by
  have hsafi : uint16be family.afiSafi.2 = [0x00, UInt8.ofNat family.afiSafi.2] := by
    cases family <;> rfl
  rw [buildVpnFamily, buildFamily, hsafi]

theorem flatMap_buildFamily (families : List AddrFamily) : families.flatMap config.buildFamily =
    encodeAll ((families.filter config.hasFamily).map fun family =>
      .multiprotocolExtensions family.afiSafi.1 family.afiSafi.2) := by
  induction families with
  | nil => rfl
  | cons family _ ih =>
    rw [flatMap_cons, ih, buildFamily, filter_cons]
    by_cases h : config.hasFamily family
    · rw [if_pos h, if_pos h]
      rfl
    · rw [if_neg h, if_neg h]
      rfl

theorem buildTuples_eq {c : Capability} {capInfo : Buffer} {p q : Prop} [Decidable p]
    [Decidable q] (hinfo : capInfo = c.wire.2) (hne : c.wire.2 ≠ [] ↔ q) :
    (if p then buildTuples c.wire.1 capInfo else []) =
      encodeAll (if p ∧ q then [c] else []) := by
  subst hinfo
  simp only [buildTuples, length_pos_iff]
  by_cases hp : p
  · by_cases hq : q
    · rw [if_pos hp, if_pos (hne.mpr hq), if_pos ⟨hp, hq⟩, encodeAll_singleton]
      rfl
    · rw [if_pos hp, if_neg (mt hne.mp hq), if_neg (fun h => hq h.2)]
      rfl
  · rw [if_neg hp, if_neg (fun h => hp h.1)]
    rfl

theorem buildAddPath_eq : config.buildAddPath =
    encodeAll (if config.hasCapability 0x20 ∧ config.addPaths ≠ [] then [.addPath config.addPaths]
      else []) := by
  refine buildTuples_eq (c := .addPath config.addPaths) ?_ ?_
  · rw [wire, addPaths, flatMap_map]
  · rw [← length_pos_iff, ← length_pos_iff, wire, length_flatMap_addPaths]
    omega

theorem buildExtendedNextHop_eq : config.buildExtendedNextHop =
    encodeAll (if config.hasCapability 0x10 ∧ config.nextHops ≠ [] then
      [.extendedNextHopEncoding config.nextHops] else []) := by
  refine buildTuples_eq (c := .extendedNextHopEncoding config.nextHops) ?_ ?_
  · rw [wire, nextHops, flatMap_map]
  · rw [← length_pos_iff, ← length_pos_iff, wire, length_flatMap_nextHops]
    omega

theorem buildFamilies_eq : config.buildFamilies = encodeAll (if config.hasCapability 0x01 then
    (families.filter config.hasFamily).map fun family =>
      .multiprotocolExtensions family.afiSafi.1 family.afiSafi.2 else []) := by
  have hvpn : config.buildVpnFamily = config.buildFamily := funext config.buildVpnFamily_eq
  by_cases hcap : config.hasCapability 0x01
  · rw [buildFamilies, if_pos hcap, if_pos hcap, hvpn, ← flatMap_append, flatMap_buildFamily]
    rfl
  · rw [buildFamilies, if_neg hcap, if_neg hcap]
    rfl

theorem buildOpenMessageOptionalParams_eq :
    config.buildOpenMessageOptionalParams =
      encodeAll config.capabilities ++ config.customParams := by
  have hrefr : config.buildRouteRefresh =
      encodeAll (if config.hasCapability 0x02 then [.routeRefresh] else []) := by
    rw [buildRouteRefresh]
    split_ifs <;> rfl
  have has4 : config.buildFourOctetAs =
      encodeAll (if config.hasCapability 0x04 then [.fourOctetAs config.localAs.toNat]
        else []) := by
    rw [buildFourOctetAs]
    split_ifs <;> rfl
  have hrole : config.buildRole =
      encodeAll (if config.hasCapability 0x08 then [.bgpRole config.localRole.code] else []) := by
    rw [buildRole]
    split_ifs <;> rfl
  rw [buildOpenMessageOptionalParams, buildFamilies_eq, hrefr, has4, hrole, buildAddPath_eq,
    buildExtendedNextHop_eq, capabilities]
  simp

/-! ## They fit -/

theorem length_addPaths_le : config.addPaths.length ≤ 17 := by
  have hall : ∀ family : AddrFamily, family ∈ ([.ipv4Unc, .ipv6Unc, .l2vpnEvpn, .vpnv4, .vpnv6,
      .ipv4Mvpn, .ipv6Mvpn, .ipv4Qp, .ipv6Qp, .ipv4Flowspec, .ipv6Flowspec, .ipv4LabelUnicast,
      .ipv6LabelUnicast, .linkState, .linkStateVpn, .ipv4Multicast, .ipv6Multicast] :
      List AddrFamily) := by
    intro family
    cases family <;> decide
  have hle := (subperm_of_subset config.localAddPathMap.unique
    fun family _ => hall family).length_le
  rw [length_map] at hle
  rw [addPaths, length_map]
  exact hle

theorem length_nextHops_le : config.nextHops.length ≤ 5 := by
  rw [nextHops, length_map]
  exact length_filter_le ..

theorem fits_of_mem_capabilities (h : cap ∈ config.capabilities) : cap.Fits := by
  simp only [capabilities, mem_append, mem_ite_nil_right, mem_map, mem_singleton] at h
  rcases h with ((((⟨-, family, -, rfl⟩ | ⟨-, rfl⟩) | ⟨-, rfl⟩) | ⟨-, rfl⟩) | ⟨h, rfl⟩) | ⟨h, rfl⟩
  · exact family.afiSafi_lt
  · exact trivial
  · exact config.localAs.toNat_lt
  · exact config.localRole.code_lt
  · refine ⟨h.2, config.length_addPaths_le.trans (by decide), ?_⟩
    intro t ht
    obtain ⟨row, -, rfl⟩ := mem_map.mp ht
    exact ⟨row.1.afiSafi_lt.1, row.1.afiSafi_lt.2, row.2.code_lt⟩
  · refine ⟨h.2, config.length_nextHops_le.trans (by decide), ?_⟩
    intro t ht
    obtain ⟨family, -, rfl⟩ := mem_map.mp ht
    exact ⟨by simp, family.afiSafi_lt.2.trans (by decide), by simp⟩

end OpenConfig

/-! ## The message -/

/-- An OPEN with these fields and optional parameters. -/
def openPacket (asn holdTime : ℕ) (routerId : Vector UInt8 4) (params : Buffer) : Buffer :=
  List.replicate markerLen 0xff ++ uint16be (headLen + 10 + params.length) ++ [1] ++
    ([4] ++ uint16be asn ++ uint16be holdTime ++ routerId.toList ++
      UInt8.ofNat params.length :: params)

theorem ofBytes_uint16be_mod (n : ℕ) : ofBytes (uint16be n) = n % 2 ^ 16 := by
  simp only [ofBytes, uint16be, List.foldl_cons, List.foldl_nil, UInt8.toNat_ofNat']
  omega

section OpenPacket

variable {asn holdTime : ℕ} {a b c d : UInt8} {params : Buffer}

theorem parsePacketHeader_openPacket (h : params.length ≤ 255) :
    parsePacketHeader (openPacket asn holdTime #v[a, b, c, d] params) = .ok .openMessage := by
  have hlen : (openPacket asn holdTime #v[a, b, c, d] params).length =
      headLen + 10 + params.length := by
    simp [openPacket, markerLen, headLen]
    omega
  have hfield : lengthField (openPacket asn holdTime #v[a, b, c, d] params) =
      headLen + 10 + params.length :=
    ofBytes_uint16be (by simp only [headLen]; omega)
  have htype : typeField (openPacket asn holdTime #v[a, b, c, d] params) = 1 := rfl
  have hmarker : ((openPacket asn holdTime #v[a, b, c, d] params).take markerLen).all
      (· == 0xff) := rfl
  rw [parsePacketHeader, hfield, htype, hlen, if_neg (by omega), if_neg (by simp [hmarker])]
  rw [if_neg (by simp [PacketType.ofCode, minimumLength, headLen])]
  rfl

theorem receivedOpen_openPacket (h : params.length ≤ 255) (hhead : params.head? ≠ some 255) :
    receivedOpen (openPacket asn holdTime #v[a, b, c, d] params) =
      (parseParameters false params.length params).map fun capabilities =>
        { version := 4, asn := asn % 2 ^ 16, holdTime := holdTime % 2 ^ 16,
          routerId := (a.toNat, b.toNat, c.toNat, d.toNat), optParamLen := params.length,
          capabilities } := by
  have hdrop : (openPacket asn holdTime #v[a, b, c, d] params).drop headLen =
      [4] ++ uint16be asn ++ uint16be holdTime ++ [a, b, c, d] ++
        UInt8.ofNat params.length :: params := rfl
  have hlen : (UInt8.ofNat params.length).toNat = params.length :=
    UInt8.toNat_ofNat_of_lt' (h.trans_lt (by decide))
  rw [receivedOpen, parsePacketHeader_openPacket h]
  rw [parseOpenMessage, hdrop]
  have hplain : (UInt8.ofNat params.length != 0 && params.head? == some 255) = false := by
    simp [hhead]
  simp only [uint16be, List.cons_append, List.nil_append, hplain, Bool.false_eq_true,
    if_false, hlen, ne_eq]
  rw [← ofBytes_uint16be_mod, ← ofBytes_uint16be_mod]
  cases parseParameters false params.length params <;> rfl

end OpenPacket

section Exchange

variable {ipaddr : Ipaddr} {config : OpenConfig} {a b c d : UInt8}

theorem OpenConfig.buildOpenMsg_eq
    (hrtr : ipaddr.parse config.routerId = some (.ipv4 #v[a, b, c, d])) :
    config.buildOpenMsg ipaddr =
      if 255 < config.buildOpenMessageOptionalParams.length then .error "ERR_OUT_OF_RANGE"
      else .ok (openPacket config.localAs.toNat config.holdTime #v[a, b, c, d]
        config.buildOpenMessageOptionalParams) := by
  have hbytes : ipaddr.ipToBytes config.routerId = .ok [a, b, c, d] := by
    rw [Ipaddr.ipToBytes, hrtr]
    rfl
  rw [OpenConfig.buildOpenMsg, hbytes]
  show (if _ then _ else _) = _
  generalize config.buildOpenMessageOptionalParams = params
  split_ifs with hlong
  · rfl
  · have hhdr : buildBgpMessageHeader (headLen + 9 + (params.length + 1)) 1 =
        .ok (List.replicate markerLen 0xff ++ uint16be (headLen + 10 + params.length) ++ [1]) := by
      have htotal : headLen + 9 + (params.length + 1) = headLen + 10 + params.length := by omega
      rw [buildBgpMessageHeader, htotal, writeUInt16BE, if_pos (by simp only [headLen]; omega)]
      rfl
    show buildBgpMessageHeader (headLen + 9 + _) 1 >>= _ = _
    rw [hhdr]
    rfl

/-- A first byte 255 would announce extended parameters. It can only be one of the user. -/
theorem OpenConfig.head?_optionalParams
    (hcustom : config.capabilities = [] → config.customParams.head? ≠ some 255) :
    config.buildOpenMessageOptionalParams.head? ≠ some 255 := by
  rw [buildOpenMessageOptionalParams_eq]
  cases hcaps : config.capabilities with
  | nil => exact hcustom hcaps
  | cons _ _ =>
    show some _ ≠ some 255
    decide

theorem OpenConfig.Tellable.buildOpenMsg (h : config.Tellable ipaddr) :
    ∃ packet, config.buildOpenMsg ipaddr = .ok packet := by
  obtain ⟨bytes, hrtr⟩ := h.routerId
  obtain ⟨a, b, c, d, rfl⟩ := exists_octets bytes
  exact ⟨_, by rw [buildOpenMsg_eq hrtr, if_neg (not_lt.mpr h.fits)]⟩

section

variable {packet : Buffer}
  (hcustom : config.capabilities = [] → config.customParams.head? ≠ some 255)
  (h : config.buildOpenMsg ipaddr = .ok packet)

include hcustom h

theorem OpenConfig.receivedOpen_buildOpenMsg
    (hrtr : ipaddr.parse config.routerId = some (.ipv4 #v[a, b, c, d])) :
    receivedOpen packet =
      (parseParameters false config.customParams.length config.customParams).map fun custom =>
        { version := 4, asn := config.localAs.toNat % 2 ^ 16, holdTime := config.holdTime % 2 ^ 16,
          routerId := (a.toNat, b.toNat, c.toNat, d.toNat),
          optParamLen := config.buildOpenMessageOptionalParams.length,
          capabilities := config.capabilities ++ custom } := by
  rw [buildOpenMsg_eq hrtr, Control.ite_error_eq_ok] at h
  obtain ⟨hfits, hpkt⟩ := h
  cases hpkt
  have hprm := parseParameters_encodeAll (fun _ => config.fits_of_mem_capabilities)
    config.customParams le_rfl
  rw [receivedOpen_openPacket (not_lt.mp hfits) (head?_optionalParams hcustom)]
  rw [← buildOpenMessageOptionalParams_eq] at hprm
  rw [hprm]
  cases parseParameters false config.customParams.length config.customParams <;> rfl

/-! ## Agreement -/

/-- An OPEN is read as it was meant exactly if it can tell what is meant. -/
theorem OpenConfig.readAs_iff : config.ReadAs ipaddr packet ↔ config.Tellable ipaddr := by
  constructor
  · rintro ⟨_, custom, hread, -, hhold, ⟨a, b, c, d, hrtr, -⟩, hparse, -⟩
    rw [receivedOpen_buildOpenMsg hcustom h hrtr, hparse] at hread
    cases hread
    rw [buildOpenMsg_eq hrtr, Control.ite_error_eq_ok] at h
    refine ⟨?_, ⟨_, hrtr⟩, not_lt.mp h.1, custom, hparse⟩
    rw [← hhold]
    exact Nat.mod_lt _ (by decide)
  · rintro ⟨hhold, ⟨bytes, hrtr⟩, -, custom, hparse⟩
    obtain ⟨a, b, c, d, rfl⟩ := exists_octets bytes
    have hread := receivedOpen_buildOpenMsg hcustom h hrtr
    rw [hparse] at hread
    exact ⟨_, custom, hread, rfl, Nat.mod_eq_of_lt hhold, ⟨a, b, c, d, hrtr, rfl⟩, hparse, rfl⟩

/-- The receiver of an OPEN compares its own AS number with the low bytes of the other one. -/
theorem Session.peerType_handleOpen {ρ : Type*} {s : Session ρ} {own : OpenConfig}
    (hs : s.Configured own) (htell : config.Tellable ipaddr) :
    (s.handleOpen packet).2 = none ∧ (s.handleOpen packet).1.peerType =
      if own.localAs.toNat = config.localAs.toNat % 2 ^ 16 then .ibgp else .ebgp := by
  obtain ⟨bytes, hrtr⟩ := htell.routerId
  obtain ⟨a, b, c, d, rfl⟩ := exists_octets bytes
  obtain ⟨_, hparse⟩ := htell.custom
  have hread := OpenConfig.receivedOpen_buildOpenMsg hcustom h hrtr
  rw [hparse] at hread
  obtain ⟨_, -, heq⟩ := handleOpen_of_ok hread
  rw [heq, if_pos hs.socket, hs.localAs]
  refine ⟨rfl, ?_⟩
  simp only [Option.some.injEq, Int.natCast_inj]

end

def OpenConfig.session {ρ : Type*} (config : OpenConfig) (routes : ρ) : Session ρ where
  vrfIndex := 0
  localAs := some config.localAs.toNat
  socket := true
  sessState := .openSent
  peerCapFlags := 0
  peerAddrFamilyFlags := 0
  peerRole := 255
  peerType := .invalid
  peerAddPathMap := .empty
  peerExtendedNextHopFamilies := []
  peers := []
  routes

theorem asNumbersTell_iff (a b : UInt32) :
    AsNumbersTell a b ↔ (a.toNat = b.toNat % 2 ^ 16 ↔ a = b) ∧
      (b.toNat = a.toNat % 2 ^ 16 ↔ a.toNat = b.toNat % 2 ^ 16) := by
  rw [AsNumbersTell, ne_eq, ← UInt32.toNat_inj]
  omega

theorem ite_eq_ibgp_iff {p : Prop} [Decidable p] :
    (if p then PeerType.ibgp else .ebgp) = .ibgp ↔ p := by
  by_cases hp : p <;> simp [hp]

theorem ite_peerType_eq_iff {p q : Prop} [Decidable p] [Decidable q] :
    (if p then PeerType.ibgp else .ebgp) = (if q then .ibgp else .ebgp) ↔ (p ↔ q) := by
  by_cases hp : p <;> by_cases hq : q <;> simp [hp]

end Exchange

/-- Two sessions agree exactly if their configurations can be told in an OPEN and the two bytes of
My-AS are enough to compare their AS numbers. -/
theorem opensAgree_iff {ipaddr : Ipaddr} {ρ : Type*} [Inhabited ρ] {a b : OpenConfig}
    (ha : a.capabilities = [] → a.customParams.head? ≠ some 255)
    (hb : b.capabilities = [] → b.customParams.head? ≠ some 255) :
    OpensAgree ipaddr ρ a b ↔
      a.Tellable ipaddr ∧ b.Tellable ipaddr ∧ AsNumbersTell a.localAs b.localAs := by
  rw [asNumbersTell_iff]
  constructor
  · rintro ⟨_, _, hbuildA, hbuildB, hreadA, hreadB, hagree⟩
    have htellA := (OpenConfig.readAs_iff ha hbuildA).mp hreadA
    have htellB := (OpenConfig.readAs_iff hb hbuildB).mp hreadB
    have hs : (a.session (default : ρ)).Configured a := ⟨rfl, rfl⟩
    have ht : (b.session (default : ρ)).Configured b := ⟨rfl, rfl⟩
    obtain ⟨-, -, htype, hsame⟩ := hagree _ _ hs ht
    rw [(Session.peerType_handleOpen hb hbuildB hs htellB).2] at htype hsame
    rw [(Session.peerType_handleOpen ha hbuildA ht htellA).2] at hsame
    exact ⟨htellA, htellB, ite_eq_ibgp_iff.symm.trans htype, ite_peerType_eq_iff.mp hsame⟩
  · rintro ⟨htellA, htellB, htype, hsame⟩
    obtain ⟨packetA, hbuildA⟩ := htellA.buildOpenMsg
    obtain ⟨packetB, hbuildB⟩ := htellB.buildOpenMsg
    refine ⟨packetA, packetB, hbuildA, hbuildB, (OpenConfig.readAs_iff ha hbuildA).mpr htellA,
      (OpenConfig.readAs_iff hb hbuildB).mpr htellB, fun s t hs ht => ?_⟩
    obtain ⟨hokS, htypeS⟩ := Session.peerType_handleOpen hb hbuildB hs htellB
    obtain ⟨hokT, htypeT⟩ := Session.peerType_handleOpen ha hbuildA ht htellA
    rw [htypeS, htypeT]
    exact ⟨hokS, hokT, ite_eq_ibgp_iff.trans htype, ite_peerType_eq_iff.mpr hsame⟩

/-! ## Two speakers of one AS -/

/-- A speaker that tells its AS number in four bytes as well. -/
def sampleConfig (localAs : UInt32) (routerId : String) : OpenConfig where
  localAs
  holdTime := 180
  routerId
  localCapFlags := 0x3f
  localAddrFamilyFlags := 0x003
  localRole := .peer
  localAddPathMap := Table.empty.upsert (.ipv4Unc, .sendReceive)
  openCapCustom := ""

theorem opensAgree_sample :
    OpensAgree plain Unit (sampleConfig 65001 "10.0.0.1") (sampleConfig 65002 "10.0.0.2") :=
  (opensAgree_iff (fun _ => by decide) fun _ => by decide).mpr
    ⟨⟨by decide, ⟨#v[10, 0, 0, 1], by decide +kernel⟩, by decide +kernel, [], rfl⟩,
      ⟨by decide, ⟨#v[10, 0, 0, 2], by decide +kernel⟩, by decide +kernel, [], rfl⟩,
      .inl (by decide)⟩

/-- Two speakers of an AS whose number needs more than two bytes take each other for external
peers. -/
theorem opensDisagree_sample :
    ¬ OpensAgree plain Unit (sampleConfig 100000 "10.0.0.1") (sampleConfig 100000 "10.0.0.2") := by
  rintro ⟨_, _, -, hbuild, -, -, hagree⟩
  have htell : (sampleConfig 100000 "10.0.0.2").Tellable plain :=
    ⟨by decide, ⟨#v[10, 0, 0, 2], by decide +kernel⟩, by decide +kernel, [], rfl⟩
  have hs : ((sampleConfig 100000 "10.0.0.1").session ()).Configured _ := ⟨rfl, rfl⟩
  have ht : ((sampleConfig 100000 "10.0.0.2").session ()).Configured _ := ⟨rfl, rfl⟩
  have htype := (hagree _ _ hs ht).2.2.1.mpr rfl
  rw [(Session.peerType_handleOpen (fun _ => by decide) hbuild hs htell).2] at htype
  exact absurd htype (by decide)

end Bgp
