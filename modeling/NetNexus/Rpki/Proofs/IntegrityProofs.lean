import NetNexus.Control.Fallible
import NetNexus.Ip.Proofs.IpUtilsProofs
import NetNexus.Rpki.Integrity
import NetNexus.Rpki.Proofs.PduProofs

/-!
# Responses stay intact

A scan of the written PDUs keeps the version of the response that is open. Along a run that meets
the condition, the open response is the one of the running task, and its version is the version of
the session.
-/

namespace Rpki

open Control Encoding List Node

variable {c : Encoding} {operation : Operation} {pdus : List Buffer} {pdu : Buffer}

/-! ## The PDUs of records -/

/-- A payload PDU of the version of the session. -/
def Encoding.Carries (c : Encoding) (pdu : Buffer) : Prop :=
  IsPayload pdu ∧ pduVersion pdu = c.protocolVersion.byte

def Encoding.AllCarry (c : Encoding) (pdus : List Buffer) : Prop := ∀ pdu ∈ pdus, c.Carries pdu

theorem carries_prefix {roa : Roa} {action : Action} {isIpv6 : Bool}
    (h : c.buildPrefixPdu roa action isIpv6 = .ok pdu) : c.Carries pdu := by
  obtain ⟨_, -, h⟩ := bind_ok.mp h
  cases h
  cases isIpv6 with
  | false => exact ⟨.inl rfl, rfl⟩
  | true => exact ⟨.inr (.inl rfl), rfl⟩

theorem carries_routerKey {rk : RouterKey} {action : Action}
    (h : c.buildRouterKeyPdu rk action = .ok (some pdu)) : c.Carries pdu := by
  unfold buildRouterKeyPdu at h
  split at h
  · cases h
  · dsimp only at h
    split at h
    · cases h
    · obtain ⟨_, -, h⟩ := bind_ok.mp h
      cases h
      exact ⟨.inr (.inr (.inl rfl)), rfl⟩

theorem carries_aspaLegacy {aspa : Aspa} {action : Action} {afi : UInt8}
    (h : c.buildAspaLegacyPdu aspa action afi = .ok pdu) : c.Carries pdu := by
  obtain ⟨_, -, h⟩ := bind_ok.mp h
  cases h
  exact ⟨.inr (.inr (.inr rfl)), rfl⟩

theorem carries_aspa {aspa : Aspa} {action : Action} (h : c.buildAspaPdus aspa action = .ok pdus) :
    c.AllCarry pdus := by
  unfold buildAspaPdus at h
  intro pdu hpdu
  split at h
  · cases h
    cases hpdu
  · split at h
    · obtain ⟨_, -, hbuild⟩ := exists_of_mem_mapM h hpdu
      exact carries_aspaLegacy hbuild
    · cases h
      obtain rfl := mem_singleton.mp hpdu
      exact ⟨.inr (.inr (.inr rfl)), rfl⟩

theorem carries_aspaReplacement {oldAspa newAspa : Aspa}
    (h : c.buildAspaReplacementPdus oldAspa newAspa = .ok pdus) : c.AllCarry pdus := by
  unfold buildAspaReplacementPdus at h
  intro pdu hpdu
  split at h
  · cases h
    cases hpdu
  · split at h
    · exact carries_aspa h pdu hpdu
    · obtain ⟨_, hupda, h⟩ := bind_ok.mp h
      obtain ⟨_, hwith, h⟩ := bind_ok.mp h
      cases h
      rcases mem_append.mp hpdu with hmem | hmem
      · obtain ⟨_, -, hbuild⟩ := exists_of_mem_mapM hupda hmem
        exact carries_aspaLegacy hbuild
      · obtain ⟨_, -, hbuild⟩ := exists_of_mem_mapM hwith hmem
        exact carries_aspaLegacy hbuild

/-- Every record is sent in payload PDUs of the version in use. -/
theorem carries_of_build (h : c.buildDeltaOperationBuffers operation = .ok pdus) :
    c.AllCarry pdus := by
  intro pdu hpdu
  cases operation with
  | roa _ _ =>
    obtain ⟨_, hbuild, h⟩ := bind_ok.mp h
    cases h
    obtain rfl := mem_singleton.mp hpdu
    exact carries_prefix hbuild
  | routerKey _ _ =>
    obtain ⟨_, hbuild, h⟩ := bind_ok.mp h
    cases h
    rw [Option.mem_toList] at hpdu
    exact carries_routerKey (hpdu ▸ hbuild)
  | aspa _ _ => exact carries_aspa h pdu hpdu
  | aspaReplace _ _ => exact carries_aspaReplacement h pdu hpdu

theorem build_of_sendable (h : c.Sendable operation) :
    ∃ pdus, c.buildDeltaOperationBuffers operation = .ok pdus := by
  obtain ⟨hroas, hkeys, haspas⟩ := h
  cases operation with
  | roa _ data =>
    obtain ⟨_, haddr⟩ := Option.ne_none_iff_exists'.mp (hroas data mem_cons_self)
    dsimp only [buildDeltaOperationBuffers, buildPrefixPdu, Ip.Ipaddr.ipToBytes]
    rw [haddr]
    exact ⟨_, rfl⟩
  | routerKey action data =>
    exact (builds_routerKey data action).ok_iff.mpr fun hv => hkeys hv data mem_cons_self
  | aspa action data =>
    refine (builds_aspa data action).ok_iff.mpr ?_
    rintro rfl
    exact haspas data mem_cons_self
  | aspaReplace oldData newData =>
    exact (builds_aspaReplace oldData newData).ok_iff.mpr (haspas newData mem_cons_self)

/-! ## The writers -/

/-- Nothing is made up while a chunk is filled. -/
theorem fillChunk_all {p : Buffer → Prop} {chunk pdus : List Buffer}
    (hchunk : ∀ pdu ∈ chunk, p pdu) (hpdus : ∀ pdu ∈ pdus, p pdu) : match fillChunk chunk pdus with
    | .flush chunk' pdus' => (∀ pdu ∈ chunk', p pdu) ∧ ∀ pdu ∈ pdus', p pdu
    | .single single chunk' pdus' => p single ∧ (∀ pdu ∈ chunk', p pdu) ∧ ∀ pdu ∈ pdus', p pdu
    | .collected chunk' => ∀ pdu ∈ chunk', p pdu := by
  induction pdus generalizing chunk with
  | nil => exact hchunk
  | cons pdu _ ih =>
    obtain ⟨hpdu, hpdus'⟩ := forall_mem_cons.mp hpdus
    unfold fillChunk
    by_cases hempty : pdu.length = 0
    · rw [if_pos hempty]
      exact ih hchunk hpdus'
    rw [if_neg hempty]
    by_cases hfull : chunkBytes chunk > 0 ∧ chunkBytes chunk + pdu.length > roaWriteChunkSize
    · rw [if_pos hfull]
      exact ⟨hchunk, hpdus⟩
    rw [if_neg hfull]
    by_cases hlarge : pdu.length > roaWriteChunkSize
    · rw [if_pos hlarge]
      exact ⟨hpdu, hchunk, hpdus'⟩
    rw [if_neg hlarge]
    refine ih ?_ hpdus'
    rw [forall_mem_append]
    exact ⟨hchunk, forall_mem_singleton.mpr hpdu⟩

theorem writeChunked_spec {chunk pdus : List Buffer} {items : List Operation}
    (hchunk : c.AllCarry chunk) (hpdus : c.AllCarry pdus)
    (hitems : ∀ item ∈ items, c.Sendable item) :
    ∃ result, c.writeChunked chunk pdus items = .ok result ∧
      ∀ written rest, result = some (written, rest) →
        c.AllCarry written ∧ c.AllCarry (rest.chunk ++ rest.pdus) := by
  have hall := fillChunk_all hchunk hpdus
  unfold writeChunked
  cases hfill : fillChunk chunk pdus with
  | flush _ _ =>
    rw [hfill] at hall
    refine ⟨_, rfl, ?_⟩
    rintro _ _ ⟨⟩
    exact ⟨hall.1, hall.2⟩
  | single _ _ _ =>
    rw [hfill] at hall
    refine ⟨_, rfl, ?_⟩
    rintro _ _ ⟨⟩
    exact ⟨forall_mem_singleton.mpr hall.1, forall_mem_append.mpr hall.2⟩
  | collected chunk' =>
    rw [hfill] at hall
    cases items with
    | nil =>
      by_cases hempty : chunkBytes chunk' = 0
      · dsimp only
        rw [if_pos hempty]
        exact ⟨_, rfl, nofun⟩
      · dsimp only
        rw [if_neg hempty]
        refine ⟨_, rfl, ?_⟩
        rintro _ _ ⟨⟩
        exact ⟨hall, nofun⟩
    | cons _ _ =>
      obtain ⟨hitem, hitems'⟩ := forall_mem_cons.mp hitems
      obtain ⟨_, hbuilt⟩ := build_of_sendable hitem
      dsimp only
      rw [hbuilt]
      exact writeChunked_spec hall (carries_of_build hbuilt) hitems'

theorem writeSnapshot_spec {writing : Writing} {lists : List (ProtocolVersion × List Operation)}
    (hpdus : c.AllCarry (writing.chunk ++ writing.pdus))
    (hitems : ∀ item ∈ writing.items ++ lists.flatMap Prod.snd, c.Sendable item) :
    ∃ result, c.writeSnapshot writing lists = .ok result ∧
      ∀ written rest lists', result = some (written, rest, lists') →
        c.AllCarry written ∧ c.AllCarry (rest.chunk ++ rest.pdus) := by
  have hsplit := forall_mem_append.mp hitems
  have hpdus := forall_mem_append.mp hpdus
  obtain ⟨result, hres, hspec⟩ := writeChunked_spec hpdus.1 hpdus.2 hsplit.1
  unfold writeSnapshot
  rw [hres]
  cases result with
  | some _ =>
    refine ⟨_, rfl, ?_⟩
    rintro _ _ _ ⟨⟩
    exact hspec _ _ rfl
  | none =>
    cases lists with
    | nil => exact ⟨_, rfl, nofun⟩
    | cons list _ =>
      rw [flatMap_cons, forall_mem_append] at hsplit
      refine writeSnapshot_spec nofun ?_
      rw [forall_mem_append]
      refine ⟨?_, hsplit.2.2⟩
      intro item hitem
      -- a list that is not sent contributes nothing
      by_cases hver : list.1.byte ≤ c.protocolVersion.byte
      · exact hsplit.2.1 item (by simpa [hver] using hitem)
      · simp [hver] at hitem

theorem writeDelta_spec {pdus : List Buffer} {operations : List Operation}
    (hpdus : c.AllCarry pdus) (hops : ∀ item ∈ operations, c.Sendable item) :
    ∃ result, c.writeDelta pdus operations = .ok result ∧
      ∀ pdu pdus' operations', result = some (pdu, pdus', operations') →
        c.Carries pdu ∧ c.AllCarry pdus' := by
  induction operations generalizing pdus with
  | nil =>
    cases pdus with
    | nil => exact ⟨_, rfl, nofun⟩
    | cons _ _ =>
      refine ⟨_, rfl, ?_⟩
      rintro _ _ _ ⟨⟩
      exact forall_mem_cons.mp hpdus
  | cons _ _ ih =>
    cases pdus with
    | cons _ _ =>
      refine ⟨_, rfl, ?_⟩
      rintro _ _ _ ⟨⟩
      exact forall_mem_cons.mp hpdus
    | nil =>
      obtain ⟨hop, hops'⟩ := forall_mem_cons.mp hops
      obtain ⟨_, hbuilt⟩ := build_of_sendable hop
      unfold writeDelta
      rw [hbuilt]
      exact ih (carries_of_build hbuilt) hops'

/-! ## Scanning the written PDUs -/

/-- The version of the response that is open after the PDUs, or `none` if one of them is out of
place. -/
def scan : Option UInt8 → List Buffer → Option (Option UInt8)
  | state, [] => some state
  | none, pdu :: pdus =>
    if IsCacheResponse pdu then scan (some (pduVersion pdu)) pdus else scan none pdus
  | some version, pdu :: pdus =>
    if pduVersion pdu ≠ version then none
    else if IsEndOfData pdu then scan none pdus
    else if IsPayload pdu then scan (some version) pdus
    else none

theorem scan_append (state : Option UInt8) (xs ys : List Buffer) :
    scan state (xs ++ ys) = (scan state xs).bind fun state => scan state ys := by
  induction xs generalizing state with
  | nil => rfl
  | cons _ _ ih =>
    cases state with
    | none =>
      rw [cons_append, scan, scan]
      split <;> exact ih _
    | some _ =>
      rw [cons_append, scan, scan]
      split
      · rfl
      · split
        · exact ih _
        · split
          · exact ih _
          · rfl

theorem scan_open {version : UInt8} {pdus : List Buffer} {state : Option UInt8}
    (h : scan (some version) pdus = some state) {during rest : List Buffer} {pdu : Buffer}
    (hpdus : pdus = during ++ pdu :: rest) (hduring : ∀ p ∈ during, ¬ IsEndOfData p) :
    pduVersion pdu = version ∧ (IsPayload pdu ∨ IsEndOfData pdu) := by
  induction during generalizing pdus with
  | nil =>
    subst hpdus
    rw [nil_append, scan] at h
    by_cases hver : pduVersion pdu = version
    · rw [if_neg (not_not.mpr hver)] at h
      by_cases hend : IsEndOfData pdu
      · exact ⟨hver, .inr hend⟩
      · rw [if_neg hend] at h
        by_cases hpay : IsPayload pdu
        · exact ⟨hver, .inl hpay⟩
        · rw [if_neg hpay] at h
          cases h
    · rw [if_pos hver] at h
      cases h
  | cons _ _ ih =>
    subst hpdus
    obtain ⟨_, hduring'⟩ := forall_mem_cons.mp hduring
    rw [cons_append, scan] at h
    split at h
    · cases h
    · split at h
      · exact ih h rfl hduring'
      · cases h

theorem intact_of_scan {written : List Buffer} {state : Option UInt8}
    (h : scan none written = some state) : Intact written := by
  intro before response after hwr hresp during pdu rest hafter hduring
  rw [hwr, scan_append] at h
  obtain ⟨state', -, h⟩ := Option.bind_eq_some_iff.mp h
  have hopen : scan (some (pduVersion response)) after = some state := by
    cases state' with
    | none => rwa [scan, if_pos hresp] at h
    | some _ =>
      -- a Cache Response inside a response is out of place
      have hnot : ¬ IsEndOfData response ∧ ¬ IsPayload response := by
        unfold IsEndOfData IsPayload
        rw [hresp]
        decide
      rw [scan, if_neg hnot.1, if_neg hnot.2] at h
      split at h <;> cases h
  exact scan_open hopen hafter hduring

theorem scan_carries {version : UInt8} {pdus : List Buffer}
    (h : ∀ pdu ∈ pdus, IsPayload pdu ∧ pduVersion pdu = version) :
    scan (some version) pdus = some (some version) := by
  induction pdus with
  | nil => rfl
  | cons pdu _ ih =>
    obtain ⟨⟨hpay, hver⟩, hrest⟩ := forall_mem_cons.mp h
    have hend : ¬ IsEndOfData pdu := by
      intro hend
      unfold IsPayload at hpay
      rw [hend] at hpay
      revert hpay
      decide
    rw [scan, if_neg (not_not.mpr hver), if_neg hend, if_pos hpay]
    exact ih hrest

theorem scan_endOfData (c : Encoding) (serial : UInt32) :
    scan (some c.protocolVersion.byte) [c.buildEndOfDataPdu serial] = some none := by
  have hpdu : pduVersion (c.buildEndOfDataPdu serial) = c.protocolVersion.byte ∧
      IsEndOfData (c.buildEndOfDataPdu serial) := by
    unfold buildEndOfDataPdu
    split <;> exact ⟨rfl, rfl⟩
  rw [scan, if_neg (not_not.mpr hpdu.1), if_pos hpdu.2]
  rfl

namespace Session

variable {s : Session} {worker : Worker}

/-! ## The invariant -/

/-- The version of the response that is under way. -/
def openVersion (s : Session) : Option UInt8 :=
  if s.responding then some s.protocolVersion.byte else none

/-- As long as the session is open, the open response is the one of the running task, its PDUs are
of the version in use, and no other task is under way. -/
structure Inv (s : Session) : Prop where
  scanned : ∃ state, scan none s.written = some state ∧ (s.closing = false → state = s.openVersion)
  carries : s.closing = false → ∀ task ∈ s.sendQueue.head?, s.encoding.AllCarry task.pdus
  waiting : ∀ task ∈ s.sendQueue.tail, task.started = false

theorem inv_new (ipaddr : Ip.Ipaddr) (aspaFormat : AspaFormat) (version : ProtocolVersion)
    (randomSessionId : ℕ) : (new ipaddr aspaFormat version randomSessionId).Inv where
  scanned := ⟨none, rfl, fun _ => rfl⟩
  carries := nofun
  waiting := nofun

variable {task first : Task} {rest : List Task} {message : Buffer}

theorem pdus_eq_nil (h : task.started = false) : task.pdus = [] := by
  cases task with
  | snapshot _ _ _ => cases h
  | delta _ _ _ => cases h
  | _ => rfl

/-- Without a response under way there are no PDUs left to write. -/
theorem carries_of_idle (h : s.responding = false) (c : Encoding) :
    ∀ task ∈ s.sendQueue.head?, c.AllCarry task.pdus := by
  intro task htask pdu hpdu
  unfold responding at h
  rw [Option.mem_def.mp htask] at h
  rw [pdus_eq_nil h] at hpdu
  cases hpdu

theorem openVersion_of_idle (h : s.responding = false) : s.openVersion = none := by
  simp [openVersion, h]

theorem openVersion_of_responding (h : s.responding = true) :
    s.openVersion = some s.protocolVersion.byte := by
  simp [openVersion, h]

theorem responding_eq (hqueue : s.sendQueue = first :: rest) : s.responding = first.started := by
  simp [responding, hqueue]

theorem responding_of_waiting (hqueue : s.sendQueue = rest)
    (hwait : ∀ task ∈ rest, task.started = false) : s.responding = false := by
  cases rest with
  | nil => simp [responding, hqueue]
  | cons task _ =>
    rw [responding_eq hqueue]
    exact hwait task mem_cons_self

theorem ofByte_byte (version : ProtocolVersion) :
    ProtocolVersion.ofByte version.byte = some version := by
  cases version <;> rfl

section

variable (h : s.Inv)
include h

theorem Inv.scan_eq (hopen : s.closing = false) : scan none s.written = some s.openVersion := by
  obtain ⟨_, hscan, hstate⟩ := h.scanned
  rw [hscan, hstate hopen]

theorem Inv.closeSession : s.closeSession.Inv where
  scanned := by
    obtain ⟨state, hscan, -⟩ := h.scanned
    exact ⟨state, hscan, nofun⟩
  carries := nofun
  waiting := h.waiting

theorem Inv.messageBuffer (buffer : Buffer) : { s with messageBuffer := buffer }.Inv :=
  { h with }

/-! ## Messages of the client -/

theorem Inv.sendMessage (hidle : s.responding = false) {pdu : Buffer}
    (hpdu : ¬ IsCacheResponse pdu) : (s.sendMessage pdu).Inv := by
  unfold Session.sendMessage
  by_cases hclg : s.closing = true
  · rw [if_pos hclg]
    exact h
  · rw [if_neg hclg]
    have hopen : s.closing = false := Bool.eq_false_of_not_eq_true hclg
    refine ⟨⟨none, ?_, fun _ => ?_⟩, h.carries, h.waiting⟩
    · rw [scan_append, h.scan_eq hopen, openVersion_of_idle hidle, Option.bind_some, scan,
        if_neg hpdu]
      rfl
    · exact (openVersion_of_idle hidle).symm

theorem Inv.enqueueSend (htask : task.started = false) : (s.enqueueSend task).Inv := by
  unfold Session.enqueueSend
  by_cases hclg : s.closing = true
  · rw [if_pos hclg]
    exact h
  rw [if_neg hclg]
  obtain ⟨state, hscan, hstate⟩ := h.scanned
  cases hqueue : s.sendQueue with
  | nil =>
    have hidle : s.responding = false := by simp [responding, hqueue]
    have hidle' : { s with sendQueue := [] ++ [task] }.responding = false := by
      simpa [responding] using htask
    refine ⟨⟨state, hscan, fun hopen => ?_⟩, fun _ => carries_of_idle hidle' _, ?_⟩
    · rw [hstate hopen, openVersion_of_idle hidle, openVersion_of_idle hidle']
    · intro task' htask'
      cases htask'
  | cons first rest =>
    have hhead : (first :: rest ++ [task]).head? = s.sendQueue.head? := by rw [hqueue]; rfl
    refine ⟨⟨state, hscan, fun hopen => ?_⟩, fun hopen => ?_, ?_⟩
    · rw [hstate hopen]
      unfold openVersion responding
      rw [hhead]
    · rw [hhead]
      exact h.carries hopen
    · have hwait := h.waiting
      rw [hqueue] at hwait
      exact forall_mem_append.mpr ⟨hwait, forall_mem_singleton.mpr htask⟩

theorem Inv.protocolVersion {version : ProtocolVersion}
    (hkeep : s.responding = true → version = s.protocolVersion) :
    { s with protocolVersion := version }.Inv := by
  cases hresp : s.responding with
  | true =>
    rw [hkeep hresp]
    exact h
  | false =>
    obtain ⟨state, hscan, hstate⟩ := h.scanned
    refine ⟨⟨state, hscan, fun hopen => ?_⟩, fun _ => carries_of_idle hresp _, h.waiting⟩
    rw [hstate hopen, openVersion_of_idle hresp]
    exact (openVersion_of_idle (s := { s with protocolVersion := version }) hresp).symm

theorem Inv.sendError (hidle : s.responding = false) (errorCode : ErrorCode) :
    (s.sendError errorCode).Inv := by
  refine h.sendMessage hidle ?_
  show ¬ 10 = 3
  decide

theorem inv_handleResetQuery {version : UInt8}
    (hkeep : s.responding = true → version = s.protocolVersion.byte ∨
      version > s.maxSupportedVersion.byte) : (s.handleResetQuery version).Inv := by
  unfold handleResetQuery
  by_cases hver : version > s.maxSupportedVersion.byte
  · rw [if_pos hver]
    unfold sendErrorAndClose
    split
    · exact h.closeSession
    · obtain ⟨hscan, hcarr, hwait⟩ := h.closeSession
      exact ⟨hscan, hcarr, hwait⟩
  · rw [if_neg hver]
    refine Inv.enqueueSend (h.protocolVersion fun hresp => ?_) rfl
    rcases hkeep hresp with rfl | hlarge
    · rw [ofByte_byte]
      rfl
    · exact absurd hlarge hver

theorem inv_handleSerialQuery {version : UInt8}
    (hkeep : s.responding = true → version = s.protocolVersion.byte ∧
      ∃ serial, readUInt32BE message headerLength = some serial ∧
        readUInt16BE message 2 = s.sessionId ∧
        (UInt32.ofNat serial = worker.cacheSerial ∨
          worker.getDeltaOperationsSince (UInt32.ofNat serial) ≠ none)) :
    (s.handleSerialQuery worker version message).Inv := by
  -- every branch that writes at once contradicts the condition, unless no response is under way
  have herror : ∀ errorCode, ¬ s.responding = true → (s.sendError errorCode).Inv :=
    fun errorCode hidle => h.sendError (Bool.eq_false_of_not_eq_true hidle) errorCode
  unfold handleSerialQuery
  by_cases hver : version = s.protocolVersion.byte
  · rw [if_neg (not_not.mpr hver)]
    cases hid : readUInt16BE message 2 with
    | none =>
      refine herror _ fun hresp => ?_
      obtain ⟨-, _, hser, -⟩ := hkeep hresp
      have hlen : 8 + 4 ≤ message.length := length_of_readUInt32BE hser
      exact readUInt16BE_ne_none (by omega) hid
    | some sessionId =>
      cases hser : readUInt32BE message headerLength with
      | none =>
        refine herror _ fun hresp => ?_
        obtain ⟨-, _, hser', -⟩ := hkeep hresp
        rw [hser] at hser'
        cases hser'
      | some serial =>
        dsimp only
        by_cases hsess : s.sessionId = some sessionId
        · rw [if_neg (not_not.mpr hsess)]
          cases hdelta : worker.getDeltaOperationsSince _ with
          | some _ => exact h.enqueueSend rfl
          | none =>
            by_cases hcur : UInt32.ofNat serial = worker.cacheSerial
            · rw [if_neg (not_not.mpr hcur)]
              exact h.enqueueSend rfl
            · rw [if_pos hcur]
              refine h.sendMessage (Bool.eq_false_of_not_eq_true fun hresp => ?_) ?_
              · obtain ⟨-, _, hser', -, hok⟩ := hkeep hresp
                rw [hser, Option.some_inj] at hser'
                subst hser'
                exact hok.elim hcur fun hne => hne hdelta
              · show ¬ 8 = 3
                decide
        · rw [if_pos hsess]
          refine herror _ fun hresp => ?_
          obtain ⟨-, _, -, hsame, -⟩ := hkeep hresp
          exact hsess (hsame.symm.trans hid)
  · rw [if_pos hver]
    exact herror _ fun hresp => hver (hkeep hresp).1

theorem inv_handleErrorReport (hkeep : s.responding = true → headerLength + 4 ≤ message.length) :
    (s.handleErrorReport message).Inv := by
  unfold handleErrorReport readUInt32BE
  by_cases hlen : headerLength + 4 ≤ message.length
  · rw [if_pos hlen]
    exact h
  · rw [if_neg hlen]
    exact h.sendError (Bool.eq_false_of_not_eq_true fun hresp => hlen (hkeep hresp)) _

theorem inv_processMessage (hharm : s.responding = true → s.Harmless worker message) :
    (s.processMessage worker message).Inv := by
  show (if pduType message = 1 then s.handleSerialQuery worker (pduVersion message) message
    else if pduType message = 2 then s.handleResetQuery (pduVersion message)
    else if pduType message = 10 then s.handleErrorReport message
    else s.sendError .unsupportedPduType).Inv
  by_cases hser : pduType message = 1
  · rw [if_pos hser]
    refine inv_handleSerialQuery h fun hresp => ?_
    simpa [Harmless, hser] using hharm hresp
  rw [if_neg hser]
  by_cases hreset : pduType message = 2
  · rw [if_pos hreset]
    refine inv_handleResetQuery h fun hresp => ?_
    simpa [Harmless, hreset] using hharm hresp
  rw [if_neg hreset]
  by_cases hrpt : pduType message = 10
  · rw [if_pos hrpt]
    refine inv_handleErrorReport h fun hresp => ?_
    simpa [Harmless, hrpt] using hharm hresp
  rw [if_neg hrpt]
  refine h.sendError (Bool.eq_false_of_not_eq_true fun hresp => ?_) _
  rcases hharm hresp with ⟨htype, -⟩ | ⟨htype, -⟩ | ⟨htype, -⟩
  · exact hser htype
  · exact hreset htype
  · exact hrpt htype

theorem inv_processBufferedMessages {fuel : ℕ}
    (hharm : ∀ handled ∈ (processBufferedMessages worker fuel s).1,
      handled.1.responding = true → handled.1.Harmless worker handled.2) :
    (processBufferedMessages worker fuel s).2.Inv := by
  induction fuel generalizing s with
  | zero => exact h
  | succ _ ih =>
    unfold processBufferedMessages at hharm ⊢
    dsimp only
    split
    · exact h
    · split
      · exact h.closeSession
      · split
        · exact h
        · rename_i hlong hvalid hcompl
          rw [if_neg hlong, if_neg hvalid, if_neg hcompl] at hharm
          obtain ⟨hfirst, hrest⟩ := forall_mem_cons.mp hharm
          exact ih (inv_processMessage (h.messageBuffer _) hfirst) hrest

theorem inv_recvMsg {buffer : Buffer} (hharm : ∀ handled ∈ (s.recvMsg worker buffer).1,
      handled.1.responding = true → handled.1.Harmless worker handled.2) :
    (s.recvMsg worker buffer).2.Inv := by
  unfold recvMsg at hharm ⊢
  split
  · exact h
  · split
    · exact h.closeSession
    · rename_i hopen hsize
      rw [if_neg hopen, if_neg hsize] at hharm
      exact inv_processBufferedMessages (h.messageBuffer _) hharm

/-! ## The send queue -/

section

variable (hqueue : s.sendQueue = first :: rest)
include hqueue

theorem Inv.queued : ∀ task ∈ rest, task.started = false := by
  have hwait := h.waiting
  rwa [hqueue] at hwait

variable (hopen : s.closing = false)
include hopen

theorem inv_writeAndFinish {pdu : Buffer}
    (hpdu : scan s.openVersion [pdu] = some none) : (s.writeAndFinish pdu rest).Inv := by
  have hwait := h.queued hqueue
  have hidle : (s.writeAndFinish pdu rest).responding = false :=
    responding_of_waiting rfl hwait
  refine ⟨⟨none, ?_, fun _ => (openVersion_of_idle hidle).symm⟩, fun _ => carries_of_idle hidle _,
    fun task htask => hwait task (mem_of_mem_tail htask)⟩
  show scan none (s.written ++ _) = _
  rw [scan_append, h.scan_eq hopen, Option.bind_some, hpdu]

theorem inv_continue {s' : Session} {pdus : List Buffer} (hstar : task.started = true)
    (hwr : s'.written = s.written ++ pdus) (hqueue' : s'.sendQueue = task :: rest)
    (hver : s'.protocolVersion = s.protocolVersion)
    (hpdus : scan s.openVersion pdus = some (some s.protocolVersion.byte))
    (hcarr : s'.encoding.AllCarry task.pdus) : s'.Inv := by
  have hresp : s'.responding = true := (responding_eq hqueue').trans hstar
  refine ⟨⟨some s.protocolVersion.byte, ?_, fun _ => ?_⟩, fun _ => ?_, ?_⟩
  · rw [hwr, scan_append, h.scan_eq hopen, Option.bind_some, hpdus]
  · rw [openVersion_of_responding hresp, hver]
  · intro task' htask'
    rw [hqueue'] at htask'
    cases htask'
    exact hcarr
  · rw [hqueue']
    exact h.queued hqueue

end

theorem inv_resume (hrecs : ∀ task ∈ s.sendQueue.head?, ∀ record ∈ task.records,
    s.encoding.Sendable record) (snapshotAvailable : Bool) :
    (s.resume worker snapshotAvailable).Inv := by
  unfold resume
  by_cases hclg : s.closing = true
  · rw [if_pos hclg]
    obtain ⟨state, hscan, -⟩ := h.scanned
    refine ⟨⟨state, hscan, fun hopen => ?_⟩, fun hopen => ?_, ?_⟩
    · exact absurd hopen (by simp [hclg])
    · exact absurd hopen (by simp [hclg])
    · exact fun task htask => h.waiting task (mem_of_mem_tail htask)
  rw [if_neg hclg]
  have hopen : s.closing = false := Bool.eq_false_of_not_eq_true hclg
  have hcarr := h.carries hopen
  cases hqueue : s.sendQueue with
  | nil => exact h
  | cons first _ =>
    have hresp := responding_eq hqueue
    rw [hqueue] at hcarr hrecs
    have hcarr' := hcarr first rfl
    have hrecs' := hrecs first rfl
    -- what a first write does when no response is open
    have hidle : first.started = false → s.openVersion = none :=
      fun hstar => openVersion_of_idle (hresp.trans hstar)
    have hbusy : first.started = true → s.openVersion = some s.protocolVersion.byte :=
      fun hstar => openVersion_of_responding (hresp.trans hstar)
    cases first with
    | resetQueryResponse =>
      cases snapshotAvailable with
      | true =>
        refine inv_continue h hqueue hopen rfl rfl rfl rfl ?_ nofun
        rw [hidle rfl]
        rfl
      | false =>
        refine inv_writeAndFinish h hqueue hopen ?_
        rw [hidle rfl]
        rfl
    | serialQueryResponse _ _ =>
      refine inv_continue h hqueue hopen rfl rfl rfl rfl ?_ nofun
      rw [hidle rfl]
      rfl
    | serialNotify =>
      refine inv_writeAndFinish h hqueue hopen ?_
      rw [hidle rfl]
      rfl
    | snapshot _ _ serial =>
      obtain ⟨result, hres, hspec⟩ := writeSnapshot_spec hcarr' hrecs'
      dsimp only
      rw [hres]
      cases result with
      | none =>
        refine inv_writeAndFinish h hqueue hopen ?_
        rw [hbusy rfl]
        exact scan_endOfData s.encoding serial
      | some _ =>
        obtain ⟨hpdus, hrest⟩ := hspec _ _ _ rfl
        refine inv_continue h hqueue hopen rfl rfl rfl rfl ?_ hrest
        rw [hbusy rfl]
        exact scan_carries hpdus
    | delta pdus operations serial =>
      obtain ⟨result, hres, hspec⟩ :=
        @writeDelta_spec s.encoding pdus operations hcarr' hrecs'
      dsimp only
      rw [hres]
      cases result with
      | none =>
        refine inv_writeAndFinish h hqueue hopen ?_
        rw [hbusy rfl]
        exact scan_endOfData s.encoding serial
      | some _ =>
        obtain ⟨hpdu, hrest⟩ := hspec _ _ _ rfl
        refine inv_continue h hqueue hopen rfl rfl rfl rfl ?_ hrest
        rw [hbusy rfl]
        exact scan_carries (forall_mem_singleton.mpr hpdu)

/-! ## Runs -/

theorem inv_step {event : Event} (hmeets : s.Meets event) : (s.step event).Inv := by
  cases event with
  | data _ _ => exact inv_recvMsg h hmeets
  | resume _ snapshotAvailable => exact inv_resume h hmeets snapshotAvailable
  | serialNotify =>
    show s.sendSerialNotify.Inv
    unfold sendSerialNotify
    split
    · exact h
    · exact h.enqueueSend rfl
  | close => exact h.closeSession

theorem inv_run {events : List Event} (hmeets : s.MeetsAll events) : (s.run events).Inv := by
  induction events generalizing s with
  | nil => exact h
  | cons _ _ ih => exact ih (inv_step h hmeets.1) hmeets.2

end

/-- In a run that meets the condition, every response is intact. -/
theorem run_intact (ipaddr : Ip.Ipaddr) (aspaFormat : AspaFormat)
    (maxSupportedVersion : ProtocolVersion) (randomSessionId : ℕ) (events : List Event)
    (hmeets : (new ipaddr aspaFormat maxSupportedVersion randomSessionId).MeetsAll events) :
    Intact ((new ipaddr aspaFormat maxSupportedVersion randomSessionId).run events).written := by
  obtain ⟨_, hscan, -⟩ := (inv_run (inv_new ..) hmeets).scanned
  exact intact_of_scan hscan

/-! ## A query in the middle of a response -/

def keyWorker : Worker :=
  .start ⟨.empty, .empty, 0, 0, 1, Roa.length_empty, Table.length_empty⟩
    ⟨[⟨"aaaaaaaaaaaaaaaaaaaaaaaaaaaaaaaaaaaaaaaa", "65000", "01"⟩], by decide⟩

def resetQuery (version : UInt8) : Buffer := [version, 2, 0, 0, 0, 0, 0, 8]

/-- The router key is sent, then the next Reset Query arrives, then the response is finished. -/
def twoQueries (version : UInt8) : List Event :=
  [.data keyWorker (resetQuery 1), .resume keyWorker true, .resume keyWorker true,
    .data keyWorker (resetQuery version), .resume keyWorker true]

/-- A Reset Query for version 0 makes the End of Data of a version 1 response one of version 0. -/
theorem twoQueries_not_intact :
    ¬ Intact ((new Ip.plain .latest .v2 7).run (twoQueries 0)).written := by
  intro hintact
  have hend := hintact [] _ _ rfl rfl [_] _ [] rfl (forall_mem_singleton.mpr (by decide))
  exact absurd hend.1 (by decide)

/-- A Reset Query for the same version waits until the response is finished. -/
theorem twoQueries_intact : Intact ((new Ip.plain .latest .v2 7).run (twoQueries 1)).written := by
  refine run_intact Ip.plain .latest .v2 7 _ ⟨?_, ?_, ?_, ?_, ?_, trivial⟩
  · intro handled hmem hresp
    obtain rfl := mem_singleton.mp hmem
    cases hresp
  · intro task htask record hrec
    cases htask
    cases hrec
  · intro task htask record hrec
    cases htask
    obtain rfl := mem_singleton.mp hrec
    refine ⟨nofun, fun _ rk hrk => ?_, nofun⟩
    obtain rfl := mem_singleton.mp hrk
    intro _ n hn
    obtain rfl : 65000 = n := Option.some_inj.mp hn
    decide
  · intro handled hmem _
    obtain rfl := mem_singleton.mp hmem
    exact .inr (.inl ⟨rfl, .inl rfl⟩)
  · intro task htask record hrec
    cases htask
    cases hrec

end Session

end Rpki