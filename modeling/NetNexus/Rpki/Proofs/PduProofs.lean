import NetNexus.Node.Proofs.BytesProofs
import NetNexus.Rpki.Router

/-!
# What the built PDUs say

For each builder: when it does not throw, and which records a router that reads its PDUs sets or
clears. `Builds` puts the two together, so that they can be followed through lists of records and
operations.
-/

namespace Rpki

open List Node Replay

/-- The PDUs can be built exactly if they fit their fields, and then they say the writes. -/
def Builds (format : AspaFormat) (built : Except String (List Buffer)) (fits : Prop)
    (writes : List (Write WireKey (Set Buffer))) : Prop :=
  match built with
  | .ok pdus => fits ∧ pdus.filterMap (readPdu format) = writes
  | .error _ => ¬ fits

namespace Builds

variable {format : AspaFormat} {x y : Except String (List Buffer)} {p q : Prop}
  {us vs : List (Write WireKey (Set Buffer))}

theorem ok_iff (h : Builds format x p us) : (∃ pdus, x = .ok pdus) ↔ p := by
  cases x with
  | ok pdus => exact ⟨fun _ => h.1, fun _ => ⟨pdus, rfl⟩⟩
  | error e =>
    refine ⟨?_, fun hp => absurd hp h⟩
    rintro ⟨_, hok⟩
    cases hok

theorem congr (h : Builds format x p us) (hpq : p ↔ q) (huv : us = vs) : Builds format x q vs := by
  subst huv
  cases x with
  | ok _ => exact ⟨hpq.mp h.1, h.2⟩
  | error e => exact fun hq => h (hpq.mpr hq)

theorem nil (format : AspaFormat) : Builds format (.ok []) True [] := ⟨trivial, rfl⟩

theorem append (hx : Builds format x p us) (hy : Builds format y q vs) :
    Builds format (do return (← x) ++ (← y)) (p ∧ q) (us ++ vs) := by
  cases x with
  | error e => exact fun h => hx h.1
  | ok _ =>
    cases y with
    | error e => exact fun h => hy h.2
    | ok _ =>
      refine ⟨⟨hx.1, hy.1⟩, ?_⟩
      rw [filterMap_append, hx.2, hy.2]

theorem pduList {α : Type} {items : List α} {build : α → Except String (List Buffer)}
    {fits : α → Prop} {writes : α → List (Write WireKey (Set Buffer))}
    (h : ∀ item ∈ items, Builds format (build item) (fits item) (writes item)) :
    Builds format (Encoding.pduList items build) (∀ item ∈ items, fits item)
      (items.flatMap writes) := by
  induction items with
  | nil => exact (nil format).congr (by simp) rfl
  | cons item items ih =>
    have hfirst := h item mem_cons_self
    have hrest := ih fun x hx => h x (mem_cons_of_mem _ hx)
    have hsplit : Encoding.pduList (item :: items) build =
        (do return (← build item) ++ (← Encoding.pduList items build)) := by
      unfold Encoding.pduList
      rw [mapM_cons]
      cases build item with
      | error e => rfl
      | ok _ =>
        cases hm : items.mapM build with
        | error e => simp
        | ok _ => simp [bind, Except.bind, pure, Except.pure]
    rw [hsplit]
    exact (hfirst.append hrest).congr (by simp) (flatMap_cons ..).symm

end Builds

/-! ## The records behind the PDUs -/

/-- An announcement sets the value, a withdrawal clears it. -/
def Action.value (action : Action) (providers : Set Buffer) : Option (Set Buffer) :=
  match action with
  | .announce => some providers
  | .withdraw => none

/-- The value of a record that is not an ASPA. -/
def noProviders : Set Buffer := {p | p ∈ providerBytes []}

def Aspa.providers (aspa : Aspa) : Set Buffer :=
  {p | p ∈ providerBytes (aspa.providerAsns.flatMap fun asn => uint32be asn.toNat)}

namespace Encoding

variable (c : Encoding)

/-- The address as it is written, in 16 or 4 bytes. -/
def prefixBytes (roa : Roa) : Buffer :=
  match c.ipaddr.ipToBytes roa.ip with
  | .ok bytes => (List.range (if roa.ipType ≠ .ipv4 then 16 else 4)).map fun i => bytes.getD i 0
  | .error _ => []

def roaKey (roa : Roa) : WireKey :=
  .ipPrefix (roa.ipType ≠ .ipv4) (c.prefixBytes roa) (UInt8.ofNat roa.mask)
    (UInt8.ofNat roa.maxLength) (uint32be roa.asn.toNat)

/-- Version 0 has no router keys. -/
def routerKeyKeys (rk : RouterKey) : List WireKey :=
  if c.protocolVersion = .v0 then []
  else rk.wire.toList.map fun w => .routerKey w.1 w.2.1 w.2.2

def aspaKey (aspa : Aspa) (afi : Option UInt8) : WireKey :=
  .aspa (uint32be aspa.customerAsn.toNat) afi

/-- The address families of the records of an ASPA. -/
def aspaAfis (aspa : Aspa) : List (Option UInt8) :=
  if c.protocolVersion ≠ .v2 then []
  else match c.aspaFormat with
    | .latest => [none]
    | .legacy => (getLegacyAspaAfiFlags aspa).map some

def aspaKeys (aspa : Aspa) : List WireKey := (c.aspaAfis aspa).map (aspaKey aspa)

/-- What the PDUs of an operation say. -/
def writes : Operation → List (Write WireKey (Set Buffer))
  | .roa action roa => writesOf [c.roaKey roa] (action.value noProviders)
  | .routerKey action rk => writesOf (c.routerKeyKeys rk) (action.value noProviders)
  | .aspa action aspa => writesOf (c.aspaKeys aspa) (action.value aspa.providers)
  | .aspaReplace oldData newData =>
    writesOf (c.aspaKeys newData) (some newData.providers) ++
      writesOf (((c.aspaAfis oldData).filter (· ∉ c.aspaAfis newData)).map (aspaKey oldData)) none

end Encoding

/-! ## Single PDUs -/

open Encoding Operation

variable {c : Encoding} {roa : Roa} {rk : RouterKey} {aspa : Aspa} {action : Action}

theorem value_flags (action : Action) (bytes : Buffer) :
    value action.flags bytes = action.value {p | p ∈ providerBytes bytes} := by
  cases action <;> rfl

abbrev AllCanonical (ipaddr : Ip.Ipaddr) (roas : List Roa) : Prop :=
  ∀ roa ∈ roas, roa.Canonical ipaddr

theorem builds_roa (hdoc : c.ipaddr.Documented) (hroa : roa.Canonical c.ipaddr) (action : Action) :
    Builds c.aspaFormat (c.buildDeltaOperationBuffers (.roa action roa)) True
      (c.writes (.roa action roa)) := by
  obtain ⟨⟨address, -, hip⟩, -, -⟩ := hroa
  have hbytes : c.ipaddr.ipToBytes roa.ip = .ok address.toByteArray := by
    unfold Ip.Ipaddr.ipToBytes
    rw [hip, hdoc]
  have hpre : c.prefixBytes roa = (List.range (if roa.ipType ≠ .ipv4 then 16 else 4)).map
      fun i => address.toByteArray.getD i 0 := by
    unfold prefixBytes
    rw [hbytes]
  dsimp only [buildDeltaOperationBuffers, buildPrefixPdu, writes, roaKey]
  rw [hbytes, hpre]
  refine ⟨trivial, ?_⟩
  cases roa.ipType with
  | ipv4 | _ => exact congrArg (fun v => [(_, v)]) (value_flags action [])

theorem readPdu_routerKey (format : AspaFormat) {ski asn : Buffer} (hski : ski.length = 20)
    (hasn : asn.length = 4) (spki : Buffer) (version flags : UInt8) (totalLen : ℕ) :
    readPdu format ([version, 9] ++ [flags, 0] ++ uint32be totalLen ++ ski ++ asn ++ spki) =
      some (.routerKey ski asn spki, value flags []) := by
  have hski' : (ski ++ (asn ++ spki)).take 20 = ski := take_left' hski
  have hasn' : ((ski ++ (asn ++ spki)).drop 20).take 4 = asn := by
    rw [drop_left' hski, take_left' hasn]
  have hspki' : (ski ++ (asn ++ spki)).drop 24 = spki := by
    rw [← append_assoc, drop_left' (by simp [hski, hasn])]
  rw [append_assoc]
  show some (WireKey.routerKey ((ski ++ _).take 20)
    (((ski ++ _).drop 20).take 4) ((ski ++ _).drop 24), _) = _
  rw [hski', hasn', hspki']
  rfl

theorem builds_routerKey (rk : RouterKey) (action : Action) :
    Builds c.aspaFormat (c.buildDeltaOperationBuffers (.routerKey action rk))
      (c.protocolVersion ≠ .v0 → rk.Encodable) (c.writes (.routerKey action rk)) := by
  dsimp only [buildDeltaOperationBuffers, buildRouterKeyPdu, writes, routerKeyKeys, RouterKey.wire]
  by_cases hv : c.protocolVersion = .v0
  · rw [if_pos hv, if_pos hv]
    exact (Builds.nil _).congr (by simp [hv]) rfl
  · rw [if_neg hv, if_neg hv]
    by_cases hski : (hexDecode rk.ski.toList).length = 20
    · rw [if_neg (not_not.mpr hski), if_neg (not_not.mpr hski)]
      have hfits := writeUInt32BE_isOk_iff (parseInt rk.asn)
      cases hasn : writeUInt32BE _ with
      | error e =>
        intro hall
        obtain ⟨_, hok⟩ := hfits.mpr (hall hv hski)
        rw [hasn] at hok
        cases hok
      | ok asn =>
        refine ⟨fun _ _ => hfits.mp ⟨asn, hasn⟩, ?_⟩
        have hread := readPdu_routerKey c.aspaFormat hski (length_writeUInt32BE hasn)
          (hexDecode rk.spki.toList) c.protocolVersion.byte action.flags
          (8 + 20 + 4 + (hexDecode rk.spki.toList).length)
        rw [value_flags] at hread
        exact filterMap_cons_some hread
    · rw [if_pos hski, if_pos hski]
      exact (Builds.nil _).congr (by simp [RouterKey.Encodable, hski]) rfl

/-! ## ASPA PDUs -/

theorem mapM_eq_pduList {α : Type} (items : List α) (build : α → Except String Buffer) :
    items.mapM build = pduList items fun item => do return [← build item] := by
  unfold pduList
  induction items with
  | nil => rfl
  | cons item items ih =>
    rw [mapM_cons, mapM_cons, ih]
    cases build item with
    | error e => rfl
    | ok _ =>
      cases items.mapM fun item => (do return [← build item]) with
      | error e => rfl
      | ok _ => rfl

theorem flatMap_writesOf {α : Type} (items : List α) (key : α → WireKey) (o : Option (Set Buffer)) :
    (items.flatMap fun item => writesOf [key item] o) = writesOf (items.map key) o := by
  induction items with
  | nil => rfl
  | cons _ _ ih =>
    rw [flatMap_cons, ih]
    rfl

variable (aspa : Aspa)

theorem builds_aspaLegacy (action : Action) (afi : UInt8) :
    Builds .legacy (do return [← c.buildAspaLegacyPdu aspa action afi])
      (action = .announce → aspa.providerAsns.length ≤ 0xFFFF)
      (writesOf [aspaKey aspa (some afi)] (action.value aspa.providers)) := by
  unfold buildAspaLegacyPdu writeUInt16BE
  cases action with
  | withdraw => exact ⟨Action.noConfusion, rfl⟩
  | announce =>
    have hprov : (if Action.announce = .withdraw then [] else aspa.providerAsns) =
        aspa.providerAsns := if_neg (by decide)
    dsimp only
    rw [hprov]
    by_cases hlen : aspa.providerAsns.length ≤ 0xFFFF
    · rw [if_pos hlen]
      exact ⟨fun _ => hlen, rfl⟩
    · rw [if_neg hlen]
      exact fun h => hlen (h rfl)

theorem builds_aspaLegacy_list (action : Action) (afis : List UInt8)
    (hne : action = .announce → afis ≠ []) :
    Builds .legacy (afis.mapM (c.buildAspaLegacyPdu aspa action))
      (action = .announce → aspa.providerAsns.length ≤ 0xFFFF)
      (writesOf ((afis.map some).map (aspaKey aspa)) (action.value aspa.providers)) := by
  rw [mapM_eq_pduList]
  refine (Builds.pduList fun afi _ => builds_aspaLegacy aspa action afi).congr ⟨?_, ?_⟩ ?_
  · intro h hact
    obtain ⟨afi, hafi⟩ := exists_mem_of_ne_nil _ (hne hact)
    exact h afi hafi hact
  · intro h afi _
    exact h
  · rw [map_map]
    exact flatMap_writesOf afis ..

theorem getLegacyAspaAfiFlags_ne_nil : getLegacyAspaAfiFlags aspa ≠ [] := by
  unfold getLegacyAspaAfiFlags
  split <;> exact cons_ne_nil _ _

theorem builds_aspa (action : Action) :
    Builds c.aspaFormat (c.buildDeltaOperationBuffers (.aspa action aspa))
      (action = .announce → c.AspaFits aspa) (c.writes (.aspa action aspa)) := by
  dsimp only [buildDeltaOperationBuffers, buildAspaPdus, writes, aspaKeys, aspaAfis, AspaFits]
  by_cases hv : c.protocolVersion = .v2
  · rw [if_neg (not_not.mpr hv), if_neg (not_not.mpr hv)]
    cases hf : c.aspaFormat with
    | legacy =>
      refine (builds_aspaLegacy_list aspa action _ fun _ => getLegacyAspaAfiFlags_ne_nil aspa).congr
        ?_ rfl
      simp [hv]
    | latest =>
      refine ⟨fun _ _ h => AspaFormat.noConfusion h, ?_⟩
      cases action <;> rfl
  · rw [if_pos hv, if_pos hv]
    exact (Builds.nil _).congr (by simp [hv]) rfl

theorem builds_aspaReplace (oldData newData : Aspa) :
    Builds c.aspaFormat (c.buildDeltaOperationBuffers (.aspaReplace oldData newData))
      (c.AspaFits newData) (c.writes (.aspaReplace oldData newData)) := by
  dsimp only [buildDeltaOperationBuffers, buildAspaReplacementPdus, writes]
  by_cases hv : c.protocolVersion = .v2
  · rw [if_neg (not_not.mpr hv)]
    cases hf : c.aspaFormat with
    | latest =>
      have hnew := builds_aspa (c := c) newData .announce
      rw [hf] at hnew
      refine hnew.congr (by simp) ?_
      have hnone : (c.aspaAfis oldData).filter (· ∉ c.aspaAfis newData) = [] := by
        simp [aspaAfis, hf]
      rw [hnone]
      exact (append_nil _).symm
    | legacy =>
      have hnew := builds_aspaLegacy_list (c := c) newData .announce _
        (fun _ => getLegacyAspaAfiFlags_ne_nil newData)
      have hold := builds_aspaLegacy_list (c := c) oldData .withdraw
        ((getLegacyAspaAfiFlags oldData).filter
          (· ∉ getLegacyAspaAfiFlags newData)) (Action.noConfusion)
      refine (hnew.append hold).congr (by simp [AspaFits, hv, hf]) ?_
      have hafis : ∀ aspa, c.aspaAfis aspa = (getLegacyAspaAfiFlags aspa).map some := by
        simp [aspaAfis, hv, hf]
      have hfilt : (getLegacyAspaAfiFlags oldData).filter
          (· ∉ getLegacyAspaAfiFlags newData) =
          (getLegacyAspaAfiFlags oldData).filter
            ((· ∉ (getLegacyAspaAfiFlags newData).map some) ∘ some) := by
        refine filter_congr fun afi _ => ?_
        rw [Function.comp_apply, decide_eq_decide,
          mem_map_of_injective fun _ _ => Option.some_inj.mp]
      rw [aspaKeys, hafis, hafis, filter_map, ← hfilt]
      rfl
  · rw [if_pos hv]
    refine (Builds.nil _).congr (by simp [AspaFits, hv]) ?_
    simp [aspaKeys, aspaAfis, hv, writesOf]

/-! ## Operations and snapshots -/

theorem builds_operation (hdoc : c.ipaddr.Documented) {operation : Operation}
    (hroas : AllCanonical c.ipaddr operation.roas) :
    Builds c.aspaFormat (c.buildDeltaOperationBuffers operation) (c.OperationFits operation)
      (c.writes operation) := by
  cases operation with
  | roa action data =>
    refine (builds_roa hdoc (hroas data mem_cons_self) action).congr ?_ rfl
    simp [OperationFits, routerKeys, announcedAspas]
  | routerKey action data =>
    refine (builds_routerKey data action).congr ?_ rfl
    simp [OperationFits, routerKeys, announcedAspas]
  | aspa action data =>
    refine (builds_aspa data action).congr ?_ rfl
    cases action <;> simp [OperationFits, routerKeys, announcedAspas]
  | aspaReplace oldData newData =>
    refine (builds_aspaReplace oldData newData).congr ?_ rfl
    simp [OperationFits, routerKeys, announcedAspas]

theorem builds_delta (hdoc : c.ipaddr.Documented) {operations : List Operation}
    (hroas : AllCanonical c.ipaddr (operations.flatMap Operation.roas)) :
    Builds c.aspaFormat (c.deltaBuffers operations)
      (∀ operation ∈ operations, c.OperationFits operation) (operations.flatMap c.writes) := by
  refine Builds.pduList fun operation hmem => builds_operation hdoc fun roa hroa => ?_
  exact hroas roa (mem_flatMap.mpr ⟨operation, hmem, hroa⟩)

/-- What the PDUs of a full snapshot say. -/
def Encoding.snapshotWrites (c : Encoding) (t : Tables) : List (Write WireKey (Set Buffer)) :=
  t.roas.rows.flatMap (fun roa => c.writes (.roa .announce roa)) ++
    t.routerKeys.rows.flatMap (fun rk => c.writes (.routerKey .announce rk)) ++
    t.aspas.rows.flatMap (fun aspa => c.writes (.aspa .announce aspa))

theorem builds_routerKeyData (routerKeys : List RouterKey) :
    Builds c.aspaFormat (c.routerKeyData routerKeys)
      (c.protocolVersion ≠ .v0 → ∀ rk ∈ routerKeys, rk.Encodable)
      (routerKeys.flatMap fun rk => c.writes (.routerKey .announce rk)) := by
  unfold routerKeyData
  by_cases hv : c.protocolVersion = .v0
  · rw [if_pos hv]
    refine (Builds.nil _).congr (by simp [hv]) ?_
    simp [writes, routerKeyKeys, hv, writesOf]
  · rw [if_neg hv]
    refine (Builds.pduList fun rk _ => builds_routerKey rk .announce).congr ?_ rfl
    simp [hv]

theorem builds_aspaListData (aspas : List Aspa) :
    Builds c.aspaFormat (c.aspaListData aspas) (∀ aspa ∈ aspas, c.AspaFits aspa)
      (aspas.flatMap fun aspa => c.writes (.aspa .announce aspa)) := by
  unfold aspaListData
  by_cases hv : c.protocolVersion = .v2
  · rw [if_neg (not_not.mpr hv)]
    refine (Builds.pduList fun aspa _ => builds_aspa aspa .announce).congr ?_ rfl
    simp
  · rw [if_pos hv]
    refine (Builds.nil _).congr (by simp [AspaFits, hv]) ?_
    simp [writes, aspaKeys, aspaAfis, hv, writesOf]

theorem builds_snapshot (hdoc : c.ipaddr.Documented) {t : Tables}
    (hroas : AllCanonical c.ipaddr t.roas.rows) :
    Builds c.aspaFormat (c.snapshotBuffers t.roas.rows t.routerKeys.rows t.aspas.rows)
      ((c.protocolVersion ≠ .v0 → ∀ rk ∈ t.routerKeys.rows, rk.Encodable) ∧
        ∀ aspa ∈ t.aspas.rows, c.AspaFits aspa) (c.snapshotWrites t) := by
  have hpref : Builds c.aspaFormat (c.roaListData t.roas.rows) (∀ roa ∈ t.roas.rows, True) _ :=
    Builds.pduList fun roa hroa => builds_roa hdoc (hroas roa hroa) .announce
  have hkeys := builds_routerKeyData (c := c) t.routerKeys.rows
  have haspas := builds_aspaListData (c := c) t.aspas.rows
  have hsplit : c.snapshotBuffers t.roas.rows t.routerKeys.rows t.aspas.rows =
      (do return (← (do return (← c.roaListData t.roas.rows) ++
        (← c.routerKeyData t.routerKeys.rows))) ++ (← c.aspaListData t.aspas.rows)) := by
    unfold snapshotBuffers
    cases c.roaListData t.roas.rows with
    | error e => rfl
    | ok _ => cases c.routerKeyData t.routerKeys.rows <;> rfl
  rw [hsplit]
  exact ((hpref.append hkeys).append haspas).congr (by simp) rfl

end Rpki
