import NetNexus.Ip.Proofs.IpUtilsProofs
import NetNexus.Rpki.Proofs.DatasetProofs
import NetNexus.Rpki.Proofs.PduProofs

/-!
# A delta against a snapshot, on the wire

The table of a router after a full snapshot stands for the records of the tables. A delta changes
it as the recorded operations change the tables, as far as prefixes and ASPAs go: two rows with
one wire record are one row. Router keys are kept by their text, so two of them can have one wire
record, and withdrawing one of them takes the record of the other along.
-/

namespace Rpki

open Encoding List Node Operation Replay

variable {c : Encoding} {t t' : Tables} {operation : Operation} {operations : List Operation}
  {k : WireKey} {v : Set Buffer}

/-! ## Wire identity -/

theorem prefixBytes_eq {roa : Roa} {address : Ip.Address} (hdoc : c.ipaddr.Documented)
    (htype : ipTypeOf address = roa.ipType) (hip : roa.ip = c.ipaddr.text address) :
    c.prefixBytes roa = address.toByteArray := by
  have hbytes : c.ipaddr.ipToBytes roa.ip = .ok address.toByteArray := by
    unfold Ip.Ipaddr.ipToBytes
    rw [hip, hdoc]
  have hrange : ∀ (bytes : Buffer) n, bytes.length = n →
      (List.range n).map (fun i => bytes.getD i 0) = bytes := by
    intro bytes n hn
    refine ext_getElem (by simp [hn]) fun i hi hi' => ?_
    simp [getElem?_eq_getElem hi']
  unfold prefixBytes
  rw [hbytes, ← htype]
  cases address with
  | ipv4 _ | _ _ => exact hrange _ _ (by simp [Ip.Address.toByteArray, ipTypeOf])

theorem toByteArray_inj {a b : Ip.Address} (htype : ipTypeOf a = ipTypeOf b)
    (h : a.toByteArray = b.toByteArray) : a = b := by
  cases a with
  | ipv4 x =>
    cases b with
    | ipv4 y => exact congrArg _ (Vector.toList_inj.mp h)
    | ipv6 y => cases htype
  | ipv6 x =>
    cases b with
    | ipv4 y => cases htype
    | ipv6 y => exact congrArg _ (Vector.toList_inj.mp h)

theorem ofNat_inj_of_le {m n : ℕ} (hm : m ≤ 128) (hn : n ≤ 128)
    (h : UInt8.ofNat m = UInt8.ofNat n) : m = n := by
  have hnat := congrArg UInt8.toNat h
  rw [UInt8.toNat_ofNat', UInt8.toNat_ofNat'] at hnat
  omega

/-- Canonical ROAs with one wire record have one key. -/
theorem roaKey_inj {roa roa' : Roa} (hdoc : c.ipaddr.Documented) (hroa : roa.Canonical c.ipaddr)
    (hroa' : roa'.Canonical c.ipaddr) (h : c.roaKey roa = c.roaKey roa') : roa.key = roa'.key := by
  obtain ⟨⟨a, hatype, haip⟩, _, _⟩ := hroa
  obtain ⟨⟨b, hbtype, hbip⟩, _, _⟩ := hroa'
  have hmax : ∀ ipType : IpType, ipType.maxMask ≤ 128 := by
    intro ipType
    cases ipType <;> decide
  have hamax := hmax roa.ipType
  have hbmax := hmax roa'.ipType
  obtain ⟨hipv6, hbytes, hmask, hlen, hasn⟩ := WireKey.ipPrefix.inj h
  have htype : roa.ipType = roa'.ipType := by
    revert hipv6
    cases roa.ipType <;> cases roa'.ipType <;> simp
  rw [prefixBytes_eq hdoc hatype haip, prefixBytes_eq hdoc hbtype hbip] at hbytes
  have haddr : a = b := toByteArray_inj (by rw [hatype, hbtype, htype]) hbytes
  unfold Roa.key
  rw [haip, hbip, haddr, ofNat_inj_of_le (by omega) (by omega) hmask,
    ofNat_inj_of_le (by omega) (by omega) hlen, uint32be_inj hasn]

theorem customerAsn_eq_of_mem {a b : Aspa} (ha : k ∈ c.aspaKeys a) (hb : k ∈ c.aspaKeys b) :
    a.customerAsn = b.customerAsn := by
  obtain ⟨_, -, rfl⟩ := mem_map.mp ha
  obtain ⟨_, -, h⟩ := mem_map.mp hb
  exact uint32be_inj (WireKey.aspa.inj h).1.symm

/-! ## The records of a snapshot -/

/-- A row of one of the tables. -/
inductive Record where
  | roa (data : Roa)
  | routerKey (data : RouterKey)
  | aspa (data : Aspa)

/-- The record is in its table. -/
def Tables.Has (t : Tables) : Record → Prop
  | .roa data => data ∈ t.roas.rows
  | .routerKey data => data ∈ t.routerKeys.rows
  | .aspa data => data ∈ t.aspas.rows

/-- What a router keeps the record under. -/
def Encoding.keys (c : Encoding) : Record → List WireKey
  | .roa data => [c.roaKey data]
  | .routerKey data => c.routerKeyKeys data
  | .aspa data => c.aspaKeys data

def Record.value : Record → Set Buffer
  | .aspa data => data.providers
  | _ => noProviders

/-- Some record of the tables has this key and value. -/
def Listed (c : Encoding) (t : Tables) (k : WireKey) (v : Set Buffer) : Prop :=
  ∃ r, t.Has r ∧ k ∈ c.keys r ∧ r.value = v

theorem mem_routerKeyKeys {rk : RouterKey} : k ∈ c.routerKeyKeys rk ↔
    c.protocolVersion ≠ .v0 ∧ ∃ w, rk.wire = some w ∧ k = .routerKey w.1 w.2.1 w.2.2 := by
  unfold routerKeyKeys
  by_cases hv : c.protocolVersion = .v0
  · simp [hv]
  · simp [eq_comm]

theorem mem_aspaKeys {aspa : Aspa} :
    k ∈ c.aspaKeys aspa ↔ ∃ afi ∈ c.aspaAfis aspa, k = aspaKey aspa afi := by
  unfold aspaKeys
  simp [eq_comm]

/-- Rows of different kinds have different wire records. -/
theorem keys_kind {r r' : Record} (hr : k ∈ c.keys r) (hr' : k ∈ c.keys r') :
    (∃ x y, r = .roa x ∧ r' = .roa y) ∨ (∃ x y, r = .routerKey x ∧ r' = .routerKey y) ∨
      ∃ x y, r = .aspa x ∧ r' = .aspa y := by
  cases r <;> cases r' <;>
    simp only [Encoding.keys, mem_routerKeyKeys, mem_aspaKeys] at hr hr' <;>
    grind [roaKey, aspaKey]

theorem mem_snapshotWrites {o : Option (Set Buffer)} :
    (k, o) ∈ c.snapshotWrites t ↔ ∃ v, o = some v ∧ Listed c t k v := by
  simp only [snapshotWrites, mem_append, mem_flatMap, writes,
    mem_writesOf]
  constructor
  · rintro ((⟨x, hx, hk, rfl⟩ | ⟨x, hx, hk, rfl⟩) | ⟨x, hx, hk, rfl⟩)
    · exact ⟨_, rfl, .roa x, hx, by simp [Encoding.keys, hk], rfl⟩
    · exact ⟨_, rfl, .routerKey x, hx, hk, rfl⟩
    · exact ⟨_, rfl, .aspa x, hx, hk, rfl⟩
  · rintro ⟨_, rfl, x | x | x, hx, hk, rfl⟩
    · exact .inl (.inl ⟨x, hx, by simpa [Encoding.keys] using hk, rfl⟩)
    · exact .inl (.inr ⟨x, hx, hk, rfl⟩)
    · exact .inr ⟨x, hx, hk, rfl⟩

theorem listed_agree {v' : Set Buffer} (h : Listed c t k v) (h' : Listed c t k v') : v' = v := by
  obtain ⟨r, hr, hk, rfl⟩ := h
  obtain ⟨_, hr', hk', rfl⟩ := h'
  rcases keys_kind hk hk' with ⟨x, y, rfl, rfl⟩ | ⟨x, y, rfl, rfl⟩ | ⟨x, y, rfl, rfl⟩
  · rfl
  · rfl
  · rw [inj_on_of_nodup_map t.aspas.unique hr hr' (customerAsn_eq_of_mem hk hk')]

theorem represents_snapshot (c : Encoding) (t : Tables) :
    Represents (writeAll (fun _ => none) (c.snapshotWrites t)) (Listed c t) := by
  have hagree : ∀ k o o', (k, o) ∈ c.snapshotWrites t → (k, o') ∈ c.snapshotWrites t →
      o' = o := by
    intro k o o' ho ho'
    obtain ⟨v, rfl, hv⟩ := mem_snapshotWrites.mp ho
    obtain ⟨_, rfl, hv'⟩ := mem_snapshotWrites.mp ho'
    rw [listed_agree hv hv']
  intro k v
  rw [represents_of_agree _ hagree]
  show _ ∈ c.snapshotWrites t ↔ _
  rw [mem_snapshotWrites]
  simp

/-! ## What an operation changes -/

def Operation.announced : Operation → Option Record
  | .roa .announce data => some (.roa data)
  | .routerKey .announce data => some (.routerKey data)
  | .aspa .announce data => some (.aspa data)
  | .aspaReplace _ newData => some (.aspa newData)
  | _ => none

def Operation.withdrawn : Operation → Option Record
  | .roa .withdraw data => some (.roa data)
  | .routerKey .withdraw data => some (.routerKey data)
  | .aspa .withdraw data => some (.aspa data)
  | .aspaReplace oldData _ => some (.aspa oldData)
  | _ => none

variable {r : Record}

/-- What an operation says about a record: it sets the records of the announced row, and clears
those of the withdrawn row that the announced one does not have. -/
inductive Written (c : Encoding) (operation : Operation) (k : WireKey) :
    Option (Option (Set Buffer)) → Prop where
  | set {r : Record} (announced : operation.announced = some r) (hk : k ∈ c.keys r) :
      Written c operation k (some (some r.value))
  | cleared {r : Record} (withdrawn : operation.withdrawn = some r) (hk : k ∈ c.keys r)
      (free : ∀ r', operation.announced = some r' → k ∉ c.keys r') :
      Written c operation k (some none)
  | untouched (announced : ∀ r, operation.announced = some r → k ∉ c.keys r)
      (withdrawn : ∀ r, operation.withdrawn = some r → k ∉ c.keys r) : Written c operation k none

theorem written_announce (hr : operation.announced = some r) (hnone : operation.withdrawn = none)
    (k : WireKey) : Written c operation k (lastWrite k (writesOf (c.keys r) (some r.value))) := by
  rw [lastWrite_writesOf]
  by_cases hk : k ∈ c.keys r
  · rw [if_pos hk]
    exact .set hr hk
  · rw [if_neg hk]
    refine .untouched ?_ ?_
    · intro r' hr'
      rw [hr, Option.some_inj] at hr'
      rwa [← hr']
    · intro r' hr'
      rw [hnone] at hr'
      cases hr'

theorem written_withdraw (hr : operation.withdrawn = some r) (hnone : operation.announced = none)
    (k : WireKey) : Written c operation k (lastWrite k (writesOf (c.keys r) none)) := by
  have hfree : ∀ r', operation.announced = some r' → k ∉ c.keys r' := by
    intro r' hr'
    rw [hnone] at hr'
    cases hr'
  rw [lastWrite_writesOf]
  by_cases hk : k ∈ c.keys r
  · rw [if_pos hk]
    exact .cleared hr hk hfree
  · rw [if_neg hk]
    refine .untouched hfree ?_
    intro r' hr'
    rw [hr, Option.some_inj] at hr'
    rwa [← hr']

theorem written_replace {oldData newData : Aspa}
    (hcust : oldData.customerAsn = newData.customerAsn) (k : WireKey) :
    Written c (.aspaReplace oldData newData) k
      (lastWrite k (c.writes (.aspaReplace oldData newData))) := by
  have hkey : ∀ afi, aspaKey oldData afi = aspaKey newData afi := by
    intro afi
    rw [aspaKey, hcust, aspaKey]
  -- the records of the old row that the new row lacks
  have hclr : k ∈ ((c.aspaAfis oldData).filter (· ∉ c.aspaAfis newData)).map
      (aspaKey oldData) ↔ k ∈ c.aspaKeys oldData ∧ k ∉ c.aspaKeys newData := by
    simp only [mem_map, mem_filter, decide_eq_true_eq, mem_aspaKeys]
    constructor
    · rintro ⟨afi, ⟨hold, hnew⟩, rfl⟩
      refine ⟨⟨afi, hold, rfl⟩, ?_⟩
      rintro ⟨afi', hafi', heq⟩
      rw [(WireKey.aspa.inj heq).2] at hnew
      exact hnew hafi'
    · rintro ⟨⟨afi, hold, rfl⟩, hnew⟩
      exact ⟨afi, ⟨hold, fun hafi => hnew ⟨afi, hafi, hkey afi⟩⟩, rfl⟩
  rw [writes, lastWrite_append, lastWrite_writesOf, lastWrite_writesOf]
  by_cases hnew : k ∈ c.aspaKeys newData
  · rw [if_pos hnew, if_neg fun h => (hclr.mp h).2 hnew]
    exact .set (r := .aspa newData) rfl hnew
  · have hfree : ∀ r, (Operation.aspaReplace oldData newData).announced = some r →
        k ∉ c.keys r := by
      rintro r ⟨⟩
      exact hnew
    rw [if_neg hnew]
    by_cases hold : k ∈ c.aspaKeys oldData
    · rw [if_pos (hclr.mpr ⟨hold, hnew⟩)]
      exact .cleared (r := .aspa oldData) rfl hold hfree
    · rw [if_neg fun h => hold (hclr.mp h).1]
      refine .untouched hfree ?_
      rintro r ⟨⟩
      exact hold

/-! ## One operation -/

variable (hdoc : c.ipaddr.Documented) (hroas : AllCanonical c.ipaddr t.roas.rows)
  (hops : AllCanonical c.ipaddr (operations.flatMap Operation.roas))

include hdoc hroas in
theorem eq_of_shared {r' : Record} (hr : t.Has r) (hr' : t.Has r') (hk : k ∈ c.keys r)
    (hk' : k ∈ c.keys r') : r = r' ∨ ∃ rk rk', r = .routerKey rk ∧ r' = .routerKey rk' := by
  rcases keys_kind hk hk' with ⟨x, y, rfl, rfl⟩ | hrks | ⟨x, y, rfl, rfl⟩
  · have hwire : c.roaKey x = c.roaKey y :=
      (mem_singleton.mp hk).symm.trans (mem_singleton.mp hk')
    have hkey := roaKey_inj hdoc (hroas x hr) (hroas y hr') hwire
    exact .inl (congrArg _ (inj_on_of_nodup_map t.roas.unique hr hr' hkey))
  · exact .inr hrks
  · exact .inl (congrArg _
      (inj_on_of_nodup_map t.aspas.unique hr hr' (customerAsn_eq_of_mem hk hk')))

section

variable (h : Tables.Applies t operation t')
include h

theorem has_iff (r : Record) :
    t'.Has r ↔ operation.announced = some r ∨ t.Has r ∧ operation.withdrawn ≠ some r := by
  cases h with
  | addRoa _ | addRouterKey _ =>
    cases r <;> simp [Tables.Has, announced, withdrawn, eq_comm]
  | deleteRoa found | deleteRouterKey found | deleteAspa found =>
    cases r <;> simp [Tables.Has, announced, withdrawn, Table.mem_delete_rows found, eq_comm]
  | addAspa free =>
    cases r <;> simp [Tables.Has, announced, withdrawn, Table.mem_upsert_rows_of_none free, eq_comm]
  | replaceAspa found =>
    cases r <;> simp [Tables.Has, announced, withdrawn,
      Table.mem_upsert_rows_of_some found, eq_comm]

theorem has_of_withdrawn (hr : operation.withdrawn = some r) : t.Has r := by
  cases h with
  | addRoa _ | addRouterKey _ | addAspa _ => cases hr
  | deleteRoa found | deleteRouterKey found | deleteAspa found | _ found =>
    cases hr
    exact (Table.find?_eq_some_iff.mp found).1

theorem written (k : WireKey) : Written c operation k (lastWrite k (c.writes operation)) := by
  cases h with
  | addRoa _ => exact written_announce (r := .roa _) rfl rfl k
  | deleteRoa _ => exact written_withdraw (r := .roa _) rfl rfl k
  | addRouterKey _ => exact written_announce (r := .routerKey _) rfl rfl k
  | deleteRouterKey _ => exact written_withdraw (r := .routerKey _) rfl rfl k
  | addAspa _ => exact written_announce (r := .aspa _) rfl rfl k
  | deleteAspa _ => exact written_withdraw (r := .aspa _) rfl rfl k
  | replaceAspa found => exact written_replace (Table.key_of_find? found) k

/-- The table of the router never has more than the snapshot would. -/
theorem listed_of_after (hafter : After (c.writes operation) (Listed c t) k v) :
    Listed c t' k v := by
  have hw := written (c := c) h k
  rcases hafter with hset | ⟨hnone, r, hr, hk, hv⟩
  · rw [hset] at hw
    cases hw with
    | set announced hk => exact ⟨_, (has_iff h _).mpr (.inl announced), hk, rfl⟩
  · rw [hnone] at hw
    cases hw with
    | untouched _ withdrawn =>
      exact ⟨r, (has_iff h r).mpr (.inr ⟨hr, fun hw => withdrawn r hw hk⟩), hk, hv⟩

theorem listed_of_untouched
    (hnone : lastWrite k (c.writes operation) = none) (hv : Listed c t' k v) : Listed c t k v := by
  have hw := written (c := c) h k
  rw [hnone] at hw
  obtain ⟨r, hr, hk, hv⟩ := hv
  cases hw with
  | untouched announced _ =>
    rcases (has_iff h r).mp hr with hann | ⟨hold, -⟩
    · exact absurd hk (announced r hann)
    · exact ⟨r, hold, hk, hv⟩

include hdoc hroas in
theorem listed_of_cleared
    (hclr : lastWrite k (c.writes operation) = some none) (hv : Listed c t' k v) :
    ∃ rk, operation = .routerKey .withdraw rk ∧ k ∈ c.routerKeyKeys rk := by
  have hw := written (c := c) h k
  rw [hclr] at hw
  obtain ⟨r, hr, hk, -⟩ := hv
  cases hw with
  | @cleared r' withdrawn hk' free =>
    rcases (has_iff h r).mp hr with hann | ⟨hold, hne⟩
    · exact absurd hk (free r hann)
    · rcases eq_of_shared hdoc hroas hold (has_of_withdrawn h withdrawn) hk hk' with
        rfl | ⟨rk, rk', rfl, rfl⟩
      · exact absurd withdrawn hne
      · cases h with
        | deleteRouterKey _ =>
          cases withdrawn
          exact ⟨rk', rfl, hk'⟩
        | _ => cases withdrawn

include hroas in
theorem canonical_step (hop : AllCanonical c.ipaddr operation.roas) :
    AllCanonical c.ipaddr t'.roas.rows := by
  intro roa hroa
  rcases (has_iff h (.roa roa)).mp hroa with hann | ⟨hold, -⟩
  · refine hop roa ?_
    cases h with
    | addRoa _ =>
      cases hann
      exact mem_cons_self
    | _ => cases hann
  · exact hroas roa hold

end

/-! ## Lists of operations -/

theorem applyAll_cons (h : t.applyAll (operation :: operations) = some t') :
    ∃ t₁, Tables.Applies t operation t₁ ∧ t₁.applyAll operations = some t' := by
  obtain ⟨t₁, hop, hrest⟩ := Option.bind_eq_some_iff.mp h
  exact ⟨t₁, Tables.applies_of_apply hop, hrest⟩

variable (h : t.applyAll operations = some t')
include h

theorem listed_of_after_all
    (hafter : After (operations.flatMap c.writes) (Listed c t) k v) : Listed c t' k v := by
  induction operations generalizing t with
  | nil =>
    cases h
    exact (after_nil _ k v).mp hafter
  | cons _ _ ih =>
    obtain ⟨_, hop, hrest⟩ := applyAll_cons h
    rw [flatMap_cons, after_append] at hafter
    exact ih hrest (After.mono (fun v hv => listed_of_after hop hv) hafter)

theorem listed_of_untouched_all
    (hnone : lastWrite k (operations.flatMap c.writes) = none) (hv : Listed c t' k v) :
    Listed c t k v := by
  induction operations generalizing t with
  | nil =>
    cases h
    exact hv
  | cons _ _ ih =>
    obtain ⟨_, hop, hrest⟩ := applyAll_cons h
    rw [flatMap_cons, lastWrite_append, Option.or_eq_none_iff] at hnone
    exact listed_of_untouched hop hnone.2 (ih hrest hnone.1)

theorem has_applyAll (hr : t'.Has r) :
    t.Has r ∨ ∃ operation ∈ operations, operation.announced = some r := by
  induction operations generalizing t with
  | nil =>
    cases h
    exact .inl hr
  | cons operation _ ih =>
    obtain ⟨_, hop, hrest⟩ := applyAll_cons h
    rcases ih hrest with hold | ⟨operation', hmem, hann⟩
    · rcases (has_iff hop r).mp hold with hann | ⟨hold, -⟩
      · exact .inr ⟨operation, mem_cons_self, hann⟩
      · exact .inl hold
    · exact .inr ⟨operation', mem_cons_of_mem _ hmem, hann⟩

/-- The tables agree exactly if no listed record is cleared at the end. -/
theorem writeAll_eq_iff :
    writeAll (writeAll (fun _ => none) (c.snapshotWrites t)) (operations.flatMap c.writes) =
        writeAll (fun _ => none) (c.snapshotWrites t') ↔
      ∀ k v, Listed c t' k v → lastWrite k (operations.flatMap c.writes) ≠ some none := by
  have hupd := (represents_snapshot c t).writeAll (operations.flatMap c.writes)
  have hsnap := represents_snapshot c t'
  constructor
  · intro heq k v hlist hclr
    rw [heq] at hupd
    rcases (hupd k v).mp ((hsnap k v).mpr hlist) with hset | ⟨hnone, -⟩
    · rw [hclr] at hset
      cases hset
    · rw [hclr] at hnone
      cases hnone
  · intro hnever
    have hafter : ∀ k v, Listed c t' k v →
        After (operations.flatMap c.writes) (Listed c t) k v := by
      intro k v hlist
      cases hlast : lastWrite k _ with
      | none => exact .inr ⟨hlast, listed_of_untouched_all h hlast hlist⟩
      | some o =>
        cases o with
        | none => exact absurd hlast (hnever k v hlist)
        | some _ =>
          have hv' := listed_of_after_all h (.inl hlast)
          rw [listed_agree hv' hlist]
          exact .inl hlast
    refine hupd.unique fun k v => ?_
    rw [hsnap]
    exact ⟨hafter k v, listed_of_after_all h⟩

include hroas hops in
theorem canonical_applyAll : AllCanonical c.ipaddr t'.roas.rows := by
  induction operations generalizing t with
  | nil =>
    cases h
    exact hroas
  | cons _ _ ih =>
    obtain ⟨_, hop, hrest⟩ := applyAll_cons h
    rw [flatMap_cons, AllCanonical, forall_mem_append] at hops
    exact ih (canonical_step hroas hop hops.1) hops.2 hrest

include hdoc hroas hops in
theorem listed_of_cleared_all
    (hclr : lastWrite k (operations.flatMap c.writes) = some none) (hv : Listed c t' k v) :
    ∃ before rk after, operations = before ++ .routerKey .withdraw rk :: after ∧
      k ∈ c.routerKeyKeys rk ∧ lastWrite k (after.flatMap c.writes) = none := by
  induction operations generalizing t with
  | nil => cases hclr
  | cons operation operations ih =>
    obtain ⟨_, hop, hrest⟩ := applyAll_cons h
    rw [flatMap_cons, AllCanonical, forall_mem_append] at hops
    rw [flatMap_cons, lastWrite_append, Option.or_eq_some_iff] at hclr
    rcases hclr with hlater | ⟨hnone, hnow⟩
    · obtain ⟨before, rk, after, rfl, hrk⟩ :=
        ih (canonical_step hroas hop hops.1) hops.2 hrest hlater
      exact ⟨operation :: before, rk, after, rfl, hrk⟩
    · have hv₁ := listed_of_untouched_all hrest hnone hv
      obtain ⟨rk, rfl, hk⟩ := listed_of_cleared hdoc hroas hop hnow hv₁
      exact ⟨[], rk, operations, rfl, hk, hnone⟩

/-! ## Router keys that are withdrawn for good -/

omit h in
theorem lastWrite_routerKey_eq_none_iff {w : Buffer × Buffer × Buffer}
    (hv : c.protocolVersion ≠ .v0) :
    lastWrite (.routerKey w.1 w.2.1 w.2.2) (operations.flatMap c.writes) = none ↔
      ∀ rk ∈ operations.flatMap routerKeys, rk.wire ≠ some w := by
  rw [lastWrite_eq_none_iff]
  constructor
  · intro h rk hrk hwire
    obtain ⟨operation, hmem, hop⟩ := mem_flatMap.mp hrk
    cases operation with
    | routerKey action _ =>
      obtain rfl := mem_singleton.mp hop
      refine h (.routerKey w.1 w.2.1 w.2.2, action.value noProviders)
        (mem_flatMap.mpr ⟨_, hmem, ?_⟩) rfl
      exact mem_writesOf.mpr ⟨mem_routerKeyKeys.mpr ⟨hv, w, hwire, rfl⟩, rfl⟩
    | _ => cases hop
  · rintro h ⟨_, o⟩ hmem rfl
    obtain ⟨operation, hop, hwrite⟩ := mem_flatMap.mp hmem
    cases operation with
    | routerKey action data =>
      obtain ⟨hk, -⟩ := mem_writesOf.mp hwrite
      obtain ⟨-, _, hwire, heq⟩ := mem_routerKeyKeys.mp hk
      obtain ⟨h₁, h₂, h₃⟩ := WireKey.routerKey.inj heq
      refine h data (mem_flatMap.mpr ⟨_, hop, mem_cons_self⟩) ?_
      rw [hwire, Option.some_inj]
      exact Prod.ext h₁.symm (Prod.ext h₂.symm h₃.symm)
    | roa action _ =>
      obtain ⟨hk, -⟩ := mem_writesOf.mp hwrite
      cases mem_singleton.mp hk
    | aspa action _ =>
      obtain ⟨hk, -⟩ := mem_writesOf.mp hwrite
      obtain ⟨_, -, heq⟩ := mem_aspaKeys.mp hk
      cases heq
    | aspaReplace oldData newData =>
      rcases mem_append.mp hwrite with hwrite | hwrite
      · obtain ⟨hk, -⟩ := mem_writesOf.mp hwrite
        obtain ⟨_, -, heq⟩ := mem_aspaKeys.mp hk
        cases heq
      · obtain ⟨hk, -⟩ := mem_writesOf.mp hwrite
        obtain ⟨_, -, heq⟩ := mem_map.mp hk
        cases heq

include hdoc hroas hops in
/-- Listed records are never cleared at the end exactly if withdrawals of router keys are exact. -/
theorem cleared_iff_withdrawsExactly :
    (∀ k v, Listed c t' k v → lastWrite k (operations.flatMap c.writes) ≠ some none) ↔
      (c.protocolVersion ≠ .v0 → WithdrawsExactly operations t') := by
  constructor
  · rintro hnever hv _ rk _ rfl hsent hlater rk' hrk' hwire
    obtain ⟨w, hw⟩ := Option.ne_none_iff_exists'.mp hsent
    rw [hw] at hlater hwire
    have hk : WireKey.routerKey w.1 w.2.1 w.2.2 ∈ c.routerKeyKeys rk :=
      mem_routerKeyKeys.mpr ⟨hv, w, hw, rfl⟩
    refine hnever _ _ ⟨.routerKey rk', hrk', mem_routerKeyKeys.mpr ⟨hv, w, hwire, rfl⟩, rfl⟩ ?_
    rw [flatMap_append, flatMap_cons, lastWrite_append, lastWrite_append,
      (lastWrite_routerKey_eq_none_iff hv).mpr hlater, writes, lastWrite_writesOf,
      if_pos hk]
    rfl
  · rintro hexact k v hlist hclr
    obtain ⟨before, rk, after, hsplit, hk, hnone⟩ :=
      listed_of_cleared_all hdoc hroas hops h hclr hlist
    obtain ⟨hv, w, hw, rfl⟩ := mem_routerKeyKeys.mp hk
    obtain ⟨r, hr, hkr, -⟩ := hlist
    rcases keys_kind (r := .routerKey rk) hk hkr with
      ⟨_, _, heq, _⟩ | ⟨_, rk', _, rfl⟩ | ⟨_, _, heq, _⟩
    · cases heq
    · obtain ⟨-, w', hw', heq⟩ := mem_routerKeyKeys.mp hkr
      obtain ⟨h₁, h₂, h₃⟩ := WireKey.routerKey.inj heq
      have hsame : w = w' := Prod.ext h₁ (Prod.ext h₂ h₃)
      refine hexact hv before rk after hsplit (by simp [hw]) ?_ rk' hr ?_
      · rw [hw]
        exact (lastWrite_routerKey_eq_none_iff hv).mp hnone
      · rw [hw, hw', hsame]
    · cases heq

/-! ## When everything can be sent -/

omit h in
theorem fits_iff : c.Fits t operations ↔
    ((c.protocolVersion ≠ .v0 → ∀ rk ∈ t.routerKeys.rows, rk.Encodable) ∧
      ∀ aspa ∈ t.aspas.rows, c.AspaFits aspa) ∧
    ∀ operation ∈ operations, c.OperationFits operation := by
  simp only [Fits, OperationFits, AspaFits]
  grind

/-- If the old snapshot and the delta can be sent, so can the new snapshot. -/
theorem Encoding.Fits.applyAll (hfits : c.Fits t operations) :
    (c.protocolVersion ≠ .v0 → ∀ rk ∈ t'.routerKeys.rows, rk.Encodable) ∧
      ∀ aspa ∈ t'.aspas.rows, c.AspaFits aspa := by
  obtain ⟨⟨hkeys, haspas⟩, hdelta⟩ := fits_iff.mp hfits
  constructor
  · intro hv rk hrk
    rcases has_applyAll (r := .routerKey rk) h hrk with hold | ⟨operation, hmem, hann⟩
    · exact hkeys hv rk hold
    · refine (hdelta operation hmem).1 hv rk ?_
      rcases operation with ⟨_ | _, _⟩ | ⟨_ | _, _⟩ | ⟨_ | _, _⟩ | ⟨_, _⟩ <;> cases hann
      exact mem_cons_self
  · intro aspa haspa
    rcases has_applyAll (r := .aspa aspa) h haspa with hold | ⟨operation, hmem, hann⟩
    · exact haspas aspa hold
    · refine (hdelta operation hmem).2 aspa ?_
      rcases operation with ⟨_ | _, _⟩ | ⟨_ | _, _⟩ | ⟨_ | _, _⟩ | ⟨_, _⟩ <;> cases hann <;>
        exact mem_cons_self

omit h

include hdoc hroas in
theorem snapshotTable_eq
    (hfits : (c.protocolVersion ≠ .v0 → ∀ rk ∈ t.routerKeys.rows, rk.Encodable) ∧
      ∀ aspa ∈ t.aspas.rows, c.AspaFits aspa) :
    c.snapshotTable t = .ok (writeAll (fun _ => none) (c.snapshotWrites t)) := by
  have hbld := builds_snapshot hdoc hroas
  obtain ⟨_, hpdus⟩ := hbld.ok_iff.mpr hfits
  rw [hpdus] at hbld
  rw [snapshotTable, hpdus, ← hbld.2]
  rfl

include hdoc hroas hops in
theorem updatedTable_eq_ok_iff (table : RouterTable) :
    c.updatedTable t operations = .ok table ↔ c.Fits t operations ∧
      table = writeAll (writeAll (fun _ => none) (c.snapshotWrites t))
        (operations.flatMap c.writes) := by
  have hbld := (builds_snapshot hdoc hroas).append (builds_delta hdoc hops)
  have hsplit : c.updatedTable t operations =
      (do return (← c.snapshotBuffers t.roas.rows t.routerKeys.rows t.aspas.rows) ++
        (← c.deltaBuffers operations)).map (RouterTable.ofPdus c.aspaFormat) := by
    unfold updatedTable
    cases c.snapshotBuffers t.roas.rows t.routerKeys.rows t.aspas.rows with
    | error e => rfl
    | ok _ => cases c.deltaBuffers operations <;> rfl
  rw [hsplit, fits_iff, ← hbld.ok_iff, ← writeAll_append]
  revert hbld
  generalize (do return (← c.snapshotBuffers t.roas.rows t.routerKeys.rows t.aspas.rows) ++
        (← c.deltaBuffers operations)) = built
  intro hbld
  cases built with
  | error e => simp [Except.map]
  | ok _ => simp [Except.map, RouterTable.ofPdus, hbld.2, eq_comm]

/-- A router that applies a delta ends up with the table of the new snapshot exactly if all PDUs
can be built and no router key is left that looks like one withdrawn for good. -/
theorem updatedTable_eq_snapshotTable_iff (c : Encoding) (hdoc : c.ipaddr.Documented)
    (t t' : Tables) (operations : List Operation)
    (hroas : ∀ roa ∈ t.roas.rows, roa.Canonical c.ipaddr)
    (hops : ∀ roa ∈ operations.flatMap Operation.roas, roa.Canonical c.ipaddr)
    (happly : t.applyAll operations = some t') :
    (∃ table, c.updatedTable t operations = .ok table ∧ c.snapshotTable t' = .ok table) ↔
      c.Fits t operations ∧ (c.protocolVersion ≠ .v0 → WithdrawsExactly operations t') := by
  have hsnap : c.Fits t operations →
      c.snapshotTable t' = .ok (writeAll (fun _ => none) (c.snapshotWrites t')) := by
    intro hfits
    exact snapshotTable_eq hdoc (canonical_applyAll hroas hops happly) (hfits.applyAll happly)
  rw [← cleared_iff_withdrawsExactly hdoc hroas hops happly, ← writeAll_eq_iff happly]
  constructor
  · rintro ⟨table, hupd, htable⟩
    obtain ⟨hfits, heq⟩ := (updatedTable_eq_ok_iff hdoc hroas hops table).mp hupd
    rw [hsnap hfits, Except.ok.injEq] at htable
    exact ⟨hfits, heq.symm.trans htable.symm⟩
  · rintro ⟨hfits, heq⟩
    exact ⟨_, (updatedTable_eq_ok_iff hdoc hroas hops _).mpr ⟨hfits, rfl⟩,
      by rw [hsnap hfits, heq]⟩

/-! ## Two keys with one wire record -/

def legacyEncoding : Encoding :=
  { ipaddr := Ip.plain, protocolVersion := .v2, aspaFormat := .legacy, sessionId := 1 }

def lowerKey : RouterKey :=
  { ski := "aaaaaaaaaaaaaaaaaaaaaaaaaaaaaaaaaaaaaaaa", asn := "65000", spki := "01" }

def upperKey : RouterKey :=
  { ski := "AAAAAAAAAAAAAAAAAAAAAAAAAAAAAAAAAAAAAAAA", asn := "65000", spki := "01" }

def keyTables (keys : List RouterKey) (h : (keys.map RouterKey.key).Nodup) : Tables :=
  { roas := Table.empty, aspas := Table.empty, routerKeys := ⟨keys, h⟩ }

theorem updatedTable_loses_routerKey :
    legacyEncoding.ipaddr.Documented ∧
      (keyTables [lowerKey, upperKey] (by decide)).applyAll [.routerKey .withdraw lowerKey] =
        some (keyTables [upperKey] (by decide)) ∧
      ¬ ∃ table, legacyEncoding.updatedTable (keyTables [lowerKey, upperKey] (by decide))
          [.routerKey .withdraw lowerKey] = .ok table ∧
        legacyEncoding.snapshotTable (keyTables [upperKey] (by decide)) = .ok table := by
  refine ⟨Ip.plain_documented, rfl, ?_⟩
  rintro ⟨_, hupd, hsnap⟩
  have hold : (legacyEncoding.updatedTable (keyTables [lowerKey, upperKey] (by decide))
      [.routerKey .withdraw lowerKey]).map (fun table =>
        table (.routerKey (hexDecode lowerKey.ski.toList) (uint32be 65000) [1])) = .ok none := rfl
  have hnew : (legacyEncoding.snapshotTable (keyTables [upperKey] (by decide))).map (fun table =>
      table (.routerKey (hexDecode lowerKey.ski.toList) (uint32be 65000) [1])) =
        .ok (some noProviders) := rfl
  rw [hupd] at hold
  rw [hsnap] at hnew
  cases hold.symm.trans hnew

def deltaRoa : Roa :=
  { ipType := .ipv4, ip := "10.0.0.0", mask := 8, asn := 65000, maxLength := 24 }

def deltaAspa : Aspa :=
  { customerAsn := 65000, providerAsns := [65001, 65002], afiFlags := .ipv4 }

def deltaTables : Tables :=
  { roas := ⟨[deltaRoa], by decide⟩, aspas := ⟨[deltaAspa], by decide⟩,
    routerKeys := Table.empty }

theorem updatedTable_eq_snapshotTable_three :
    ∃ table, legacyEncoding.updatedTable (keyTables [lowerKey] (by decide))
        [.roa .announce deltaRoa, .routerKey .withdraw lowerKey, .aspa .announce deltaAspa] =
          .ok table ∧
      legacyEncoding.snapshotTable deltaTables = .ok table := by
  have hroa : deltaRoa.Canonical Ip.plain :=
    ⟨⟨.ipv4 #v[10, 0, 0, 0], rfl, rfl⟩, by decide, by decide⟩
  refine (updatedTable_eq_snapshotTable_iff legacyEncoding Ip.plain_documented
    (keyTables [lowerKey] (by decide)) deltaTables _ ?_ ?_ rfl).mpr ⟨⟨?_, ?_⟩, ?_⟩
  · intro roa hmem
    cases hmem
  · intro roa hmem
    obtain rfl := mem_singleton.mp hmem
    exact hroa
  · intro _ rk hmem _ n hn
    obtain rfl : rk = lowerKey := by simpa [keyTables, routerKeys] using hmem
    obtain rfl : 65000 = n := Option.some_inj.mp hn
    decide
  · intro _ _ aspa hmem
    obtain rfl : aspa = deltaAspa := by
      simpa [keyTables, Table.empty, announcedAspas] using hmem
    decide
  · intro _ before rk after _ _ _ rk' hrk'
    cases hrk'

end Rpki
