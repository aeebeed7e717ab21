import NetNexus.Netconf.Client
import NetNexus.Node.Proofs.BufferProofs
import NetNexus.Control.Fallible
import NetNexus.Correlation.Proofs.LedgerProofs
import NetNexus.Table.Proofs.TableProofs

/-!
# Replies and requests of a session

Every event of a session is a sequence of moves on a ledger of requests, so the promises of `rpc`
inherit what holds of ledgers.
-/

namespace Netconf

open Control Correlation List Node Stream Table

namespace Client

def carried (delivery : Delivery) : Option String := delivery.reply.messageId

def ledger (c : Client) : Ledger String where
  next := c.promises
  pending := fun id => (c.pending.find? id).map Pending.promise
  retired := {id | id ∈ c.retiredMessageIds}
  isOpen := c.state ≠ .closed

/-- A timer runs only as long as its request waits, and nothing is left of a session that is
over. -/
structure Tidy (c : Client) : Prop where
  timers : ∀ timer ∈ c.timers, ∃ entry, c.pending.find? timer.messageId = some entry ∧
    entry.promise = timer.promise
  closed : c.state = .closed → c.pending.rows = []

/-- The moves on the ledger that are logged lead to the ledger of the new state. -/
structure Refines (c : Client) (r : Client × List LogEntry) : Prop where
  tidy : r.1.Tidy
  steps : Ledger.Steps carried c.ledger r.2 r.1.ledger

variable {c d : Client}

theorem Refines.refl (h : c.Tidy) : c.Refines (c, []) := ⟨h, .nil⟩

theorem Refines.trans {log log' : List LogEntry} {e : Client} (h : c.Refines (d, log))
    (h' : d.Refines (e, log')) : c.Refines (e, log ++ log') :=
  ⟨h'.tidy, h.steps.trans h'.steps⟩

variable {id : String} (lib : XmlLibrary)

theorem ledger_delete (c : Client) (id : String) (retiredMessageIds : List String) :
    { c with pending := c.pending.delete id, retiredMessageIds }.ledger =
      { c.ledger.release id with retired := {id | id ∈ retiredMessageIds} } := by
  have hfun : (fun id' => ((c.pending.delete id).find? id').map Pending.promise) =
      Function.update (fun id' => (c.pending.find? id').map Pending.promise) id none := by
    funext id'
    rw [find?_delete]
    by_cases hid : id' = id
    · subst hid
      simp
    · simp [hid]
  simp only [ledger, hfun]
  rfl

theorem pending_ledger {entry : Pending} (h : c.pending.find? id = some entry) :
    c.ledger.pending id = some entry.promise := by
  simp [ledger, h]

theorem foldl_clearTimeout (entries : List Pending) (c : Client) :
    entries.foldl (fun c entry => c.clearTimeout entry.promise) c =
      { c with timers := c.timers.filter (·.promise ∉ entries.map Pending.promise) } := by
  induction entries generalizing c with
  | nil => simp
  | cons _ _ ih =>
    rw [foldl_cons, ih]
    simp [clearTimeout, Bool.and_comm]

/-- All requests that wait fail, and nothing is left. -/
theorem refines_closed (c : Client) (error : ClientError) :
    c.Refines ({ c with
      state := .closed
      pending := .empty
      timers := []
      retiredMessageIds := [] },
      (c.pending.rows.map fun entry => .dropped entry.promise error) ++ [.closed]) := by
  have hrows : ∀ id n, c.ledger.pending id = some n ↔
      (id, n) ∈ c.pending.rows.map fun entry => (entry.messageId, entry.promise) := by
    simp [ledger, find?_eq_some_iff, mem_map, Prod.mk.injEq, and_assoc]
  have hnodup : ((c.pending.rows.map fun entry => (entry.messageId, entry.promise)).map
      Prod.fst).Nodup := by
    rw [map_map]
    exact c.pending.unique
  have hdrop : Ledger.Steps carried c.ledger
      (((c.pending.rows.map fun entry => (entry.messageId, entry.promise)).map
        fun row => .dropped row.2 error) ++ [(.closed : LogEntry)])
      ⟨c.promises, fun _ => none, ∅, false⟩ := .dropAll hnodup hrows error
  refine ⟨⟨nofun, fun _ => rfl⟩, ?_⟩
  simpa [ledger, Table.empty, Table.find?, Function.comp_def] using hdrop

theorem state_handleReply (c : Client) (reply : Reply) :
    (c.handleReply reply).1.state = c.state := by
  unfold handleReply
  split
  · rfl
  · split
    · rfl
    · split <;> rfl

section

variable (h : c.Tidy)
include h

/-! ## Requests that stop waiting -/

theorem Tidy.release {entry : Pending} (hentry : c.pending.find? id = some entry)
    (retiredMessageIds : List String) :
    Tidy ({ c with pending := c.pending.delete id, retiredMessageIds }.clearTimeout
      entry.promise) := by
  constructor
  · intro timer htimer
    obtain ⟨htimer, hkept⟩ := mem_filter.mp htimer
    obtain ⟨other, hother, hprom⟩ := h.timers timer htimer
    refine ⟨other, ?_, hprom⟩
    show (c.pending.delete id).find? _ = _
    rw [find?_delete, if_neg]
    · exact hother
    · intro hid
      rw [hid, hentry] at hother
      cases hother
      exact of_decide_eq_true hkept hprom.symm
  · intro hcl
    show (c.pending.delete id).rows = _
    simp [Table.delete, h.closed hcl]

theorem refines_abandoned {entry : Pending} (hentry : c.pending.find? id = some entry)
    (error : ClientError) : c.Refines ({ c with
      pending := c.pending.delete id
      retiredMessageIds := c.retiredMessageIds.insert id }.clearTimeout entry.promise,
      [.abandoned entry.promise error]) := by
  refine ⟨h.release hentry _, ?_⟩
  show Ledger.Steps carried c.ledger _ (ledger { c with
    pending := c.pending.delete id, retiredMessageIds := c.retiredMessageIds.insert id })
  have hset :
      {x | x ∈ c.retiredMessageIds.insert id} = insert id {x | x ∈ c.retiredMessageIds} := by
    ext x
    simp [mem_insert_iff]
  rw [ledger_delete, hset]
  exact .single (.abandoned error (pending_ledger hentry))

theorem refines_cancelRpc (messageId : Option String) : c.Refines (c.cancelRpc messageId) := by
  unfold cancelRpc
  split
  · exact .refl h
  · rename_i hentry
    obtain ⟨_, -, hentry⟩ := Option.bind_eq_some_iff.mp hentry
    obtain rfl := key_of_find? hentry
    exact refines_abandoned h hentry _

theorem refines_expire {timer : Timer} (htimer : timer ∈ c.timers) :
    c.Refines (c.expire timer) := by
  obtain ⟨entry, hentry, hprom⟩ := h.timers timer htimer
  have hfind : (c.clearTimeout timer.promise).pending.find? timer.messageId = some entry := hentry
  unfold expire
  dsimp only
  rw [hfind]
  rw [← hprom]
  exact refines_abandoned h hentry _

variable (error : ClientError)

theorem refines_refuse : c.Refines (c.refuse error) :=
  ⟨⟨h.timers, h.closed⟩, .single (.refused error)⟩

section

variable (hopen : c.state ≠ .closed)
include hopen

/-! ## Replies -/

theorem refines_orphan (delivery : Delivery)
    {retiredMessageIds : List String} (hsub : ∀ id ∈ retiredMessageIds, id ∈ c.retiredMessageIds)
    (hkept : ∀ id ∈ c.retiredMessageIds, carried delivery ≠ some id → id ∈ retiredMessageIds) :
    c.Refines ({ c with retiredMessageIds }, [.orphan delivery]) :=
  ⟨⟨h.timers, h.closed⟩, .single (.orphan (by simp [ledger, hopen]) hsub hkept)⟩

theorem refines_answered {entry : Pending} {delivery : Delivery}
    (hid : carried delivery = some id) (hentry : c.pending.find? id = some entry) :
    c.Refines ({ c with pending := c.pending.delete id }.clearTimeout entry.promise,
      [.answered entry.promise delivery]) := by
  refine ⟨h.release hentry _, ?_⟩
  show Ledger.Steps carried c.ledger _ (ledger { c with
    pending := c.pending.delete id, retiredMessageIds := c.retiredMessageIds })
  rw [ledger_delete]
  exact .single (.answered (by simp [ledger, hopen]) hid (pending_ledger hentry))

theorem refines_handleReply (reply : Reply) : c.Refines (c.handleReply reply) := by
  unfold handleReply
  split
  · exact refines_orphan h hopen _ (fun _ h => h) fun _ h _ => h
  · rename_i hid
    obtain ⟨hid, -⟩ := Option.filter_eq_some_iff.mp hid
    split
    · refine refines_orphan h hopen _ (fun id hmem => (mem_filter.mp hmem).1) ?_
      intro id hmem hne
      refine mem_filter.mpr ⟨hmem, ?_⟩
      rw [decide_eq_true_eq]
      rintro rfl
      exact hne hid
    · split
      · exact refines_orphan h hopen _ (fun _ h => h) fun _ h _ => h
      · rename_i hentry
        exact refines_answered h hopen hid hentry

theorem refines_handleMessage {xml : String}
    {r : Client × List LogEntry} (hr : c.handleMessage lib xml = .ok r) :
    c.Refines r ∧ r.1.state = c.state := by
  obtain ⟨message, -, hr⟩ := bind_ok.mp hr
  have hcnt : c.Refines ({ c with inboundMessageSequence := c.inboundMessageSequence + 1 }, []) :=
    ⟨⟨h.timers, h.closed⟩, .nil⟩
  cases message with
  | rpcReply _ =>
    cases hr
    exact ⟨hcnt.trans (refines_handleReply hcnt.tidy hopen _), state_handleReply ..⟩
  | _ =>
    cases hr
    exact ⟨hcnt, rfl⟩

theorem refines_handleMessages (messages : List String) :
    c.Refines ((c.handleMessages lib messages).1, (c.handleMessages lib messages).2.1) := by
  induction messages generalizing c with
  | nil => exact .refl h
  | cons xml _ ih =>
    rw [handleMessages]
    cases hr : c.handleMessage lib xml with
    | error e => exact .refl h
    | ok r =>
      obtain ⟨hfirst, hstate⟩ := refines_handleMessage lib h hopen hr
      exact hfirst.trans (ih hfirst.tidy (hstate ▸ hopen))

theorem refines_decodeEstablishedData (chunk : Buffer) :
    c.Refines ((c.decodeEstablishedData lib chunk).1, (c.decodeEstablishedData lib chunk).2.1) := by
  unfold decodeEstablishedData
  split
  · exact ⟨⟨h.timers, h.closed⟩, .nil⟩
  · rename_i messages framer _
    have hframer : c.Refines ({ c with framer }, []) := ⟨⟨h.timers, h.closed⟩, .nil⟩
    exact hframer.trans (refines_handleMessages lib hframer.tidy hopen messages)

/-! ## Requests that go out -/

theorem refines_issued {entry : Pending} {timer : Timer}
    (hfree : c.pending.find? entry.messageId = none) (hret : entry.messageId ∉ c.retiredMessageIds)
    (hprom : entry.promise = c.promises) (htimer : timer.promise = c.promises)
    (hid : timer.messageId = entry.messageId) (xml : String) : c.Refines ({ c with
      promises := c.promises + 1
      timers := c.timers ++ [timer]
      pending := c.pending.upsert entry }, [.issued c.promises entry.messageId xml]) := by
  refine ⟨⟨fun other hother => ?_, fun hcl => absurd hcl hopen⟩, ?_⟩
  · rw [find?_upsert]
    rcases mem_append.mp hother with hother | hother
    · obtain ⟨found, hfound, hsame⟩ := h.timers other hother
      rw [if_neg]
      · exact ⟨found, hfound, hsame⟩
      · intro heq
        rw [← heq, hfree] at hfound
        cases hfound
    · rw [mem_singleton.mp hother, if_pos hid.symm]
      exact ⟨entry, rfl, hprom.trans htimer.symm⟩
  · have hfun : (fun id => ((c.pending.upsert entry).find? id).map Pending.promise) =
        Function.update c.ledger.pending entry.messageId (some c.promises) := by
      funext id
      rw [find?_upsert]
      by_cases heq : entry.messageId = id
      · subst heq
        simp [hprom]
      · rw [if_neg heq, Function.update_of_ne (Ne.symm heq)]
        rfl
    unfold ledger
    rw [hfun]
    refine .single (.issued xml ?_ ?_ hret)
    · simp [hopen]
    · simp [hfree]

/-- A request that could not be written leaves no trace. -/
theorem refines_withdrawn {entry : Pending} {timer : Timer}
    (hfree : c.pending.find? entry.messageId = none) (htimer : timer.promise = c.promises)
    (error : ClientError) : c.Refines ({ c with
      promises := c.promises + 1
      timers := (c.timers ++ [timer]).filter (·.promise ≠ c.promises)
      pending := (c.pending.upsert entry).delete entry.messageId },
      [.refused c.promises error]) := by
  have hfind : ∀ id, ((c.pending.upsert entry).delete entry.messageId).find? id =
      c.pending.find? id := by
    intro id
    rw [find?_delete, find?_upsert]
    by_cases heq : id = entry.messageId
    · rw [if_pos heq, heq, hfree]
    · rw [if_neg heq, if_neg (Ne.symm heq)]
  refine ⟨⟨fun other hother => ?_, fun hcl => absurd hcl hopen⟩, ?_⟩
  · obtain ⟨hmem, hother⟩ := mem_filter.mp hother
    rw [hfind]
    rcases mem_append.mp hmem with hmem | hmem
    · exact h.timers other hmem
    · rw [mem_singleton.mp hmem, htimer] at hother
      simp at hother
  · simp only [ledger, hfind]
    exact .single (.refused error)

theorem refines_request (call : RpcCall) {envelope : Envelope}
    (hfree : c.pending.find? envelope.messageId = none)
    (hret : envelope.messageId ∉ c.retiredMessageIds) (timeout : ℤ) :
    c.Refines (c.request call envelope timeout) := by
  unfold request
  dsimp only
  split
  · exact refines_issued h hopen hfree hret rfl rfl rfl _
  · exact @refines_withdrawn c h hopen ⟨_, _, _, _⟩ ⟨_, envelope.messageId, timeout⟩ hfree rfl _

theorem refines_sendEnvelope (call : RpcCall)
    (envelope : Envelope) : c.Refines (c.sendEnvelope call envelope) := by
  unfold sendEnvelope
  dsimp only
  split
  · exact refines_refuse h _
  · rename_i hfree
    split
    · exact refines_refuse h _
    · rename_i hret
      split
      · exact refines_refuse h _
      · refine refines_request h hopen call ?_ hret _
        simpa using hfree

end

/-! ## The end of a session -/

theorem refines_terminate : c.Refines (c.terminate error) := by
  unfold terminate
  split
  · exact ⟨⟨h.timers, h.closed⟩, .nil⟩
  · -- the timers that would be left belong to requests that waited, and those were all stopped
    have hnone : c.timers.filter (·.promise ∉ c.pending.rows.map Pending.promise) = [] := by
      rw [filter_eq_nil_iff]
      intro timer htimer
      obtain ⟨_, hentry, hprom⟩ := h.timers timer htimer
      rw [decide_eq_true_eq, not_not, ← hprom]
      exact mem_map_of_mem (Table.find?_eq_some_iff.mp hentry).1
    simp only [rejectPending, foldl_clearTimeout, hnone]
    exact refines_closed c error

omit h in
theorem refines_failing {result : Client × List LogEntry × Option ClientError}
    (h : c.Refines (result.1, result.2.1)) : c.Refines (failing result) := by
  obtain ⟨d, _, failure⟩ := result
  cases failure with
  | none => exact h
  | some e => exact h.trans (refines_terminate h.tidy _)

theorem refines_handleServerHello (hstate : c.state = .hello) {xml : String}
    (hd : c.handleServerHello lib xml = .ok d) : c.Refines (d, []) ∧ d.state = .connected := by
  obtain ⟨message, -, hd⟩ := bind_ok.mp hd
  cases message with
  | hello _ _ =>
    obtain ⟨-, hd⟩ := ite_error_eq_ok.mp hd
    split at hd
    · cases hd
    · cases hd
      refine ⟨⟨⟨h.timers, nofun⟩, ?_⟩, rfl⟩
      have hopen : c.ledger = { c.ledger with isOpen := true } := by simp [ledger, hstate]
      rw [hopen]
      exact .nil
  | _ => cases hd

theorem refines_handleHelloData (hstate : c.state = .hello) (chunk : Buffer) :
    c.Refines ((c.handleHelloData lib chunk).1, (c.handleHelloData lib chunk).2.1) := by
  unfold handleHelloData
  split
  · exact ⟨⟨h.timers, h.closed⟩, .nil⟩
  · rename_i helloBuffer _
    have hbuf : c.Refines ({ c with helloBuffer := { helloBuffer with buffer := [] } }, []) :=
      ⟨⟨h.timers, h.closed⟩, .nil⟩
    dsimp only
    split
    · exact hbuf
    · rename_i d hd
      obtain ⟨hhello, hconn⟩ := refines_handleServerHello lib hbuf.tidy hstate hd
      split
      · exact hbuf.trans hhello
      · have hopen : d.state ≠ .closed := by simp [hconn]
        exact hbuf.trans (hhello.trans (refines_decodeEstablishedData lib hhello.tidy hopen _))
  · exact ⟨⟨h.timers, h.closed⟩, .nil⟩
  · exact ⟨⟨h.timers, h.closed⟩, .nil⟩

theorem refines_handleData (chunk : Buffer) : c.Refines (c.handleData lib chunk) := by
  unfold handleData
  split
  · rename_i hstate
    exact refines_failing (refines_handleHelloData lib h hstate chunk)
  · rename_i hstate
    exact refines_failing (refines_decodeEstablishedData lib h (by simp [hstate]) chunk)
  · exact ⟨⟨h.timers, h.closed⟩, .nil⟩

/-! ## Calls -/

theorem refines_requestedMessageId {requested : RequestedId} {existing : Option String}
    (hd : c.requestedMessageId requested existing = .ok (id, d)) :
    c.Refines (d, []) ∧ d.state = c.state := by
  unfold requestedMessageId at hd
  split at hd
  · cases hd
    exact ⟨.refl h, rfl⟩
  · cases hd
    exact ⟨.refl h, rfl⟩
  · split at hd
    · rename_i hid
      obtain ⟨-, hid⟩ := ite_eq_ok_error.mp hid
      cases hid
      cases hd
      exact ⟨⟨⟨h.timers, h.closed⟩, .nil⟩, rfl⟩
    · cases hd

theorem refines_rpc (call : RpcCall) : c.Refines (c.rpc lib call) := by
  unfold rpc
  split
  · exact refines_refuse h _
  · rename_i hstate
    have hconn : c.state = .connected := not_not.mp hstate
    split
    · exact refines_refuse h _
    · split
      · exact .refl h
      · split
        · exact refines_refuse h _
        · rename_i hd
          obtain ⟨hreq, hsame⟩ := refines_requestedMessageId h hd
          split
          · exact hreq.trans (refines_refuse hreq.tidy _)
          · refine hreq.trans (refines_sendEnvelope hreq.tidy ?_ ..)
            rw [hsame, hconn]
            simp

/-! ## Sessions -/

theorem refines_step (event : Event) : c.Refines (c.step lib event) := by
  cases event with
  | rpc call => exact refines_rpc lib h call
  | cancelRpc messageId => exact refines_cancelRpc h messageId
  | timer _ =>
    unfold step
    dsimp only
    split
    · rename_i htimer
      exact refines_expire h (mem_of_find?_eq_some htimer)
    · exact .refl h
  | data chunk => exact refines_handleData lib h chunk
  | helloTimeout =>
    unfold step
    dsimp only
    split
    · exact refines_terminate h _
    · exact .refl h
  | terminate error => exact refines_terminate h error

theorem refines_run (events : List Event) : c.Refines (c.run lib events) := by
  induction events generalizing c with
  | nil => exact .refl h
  | cons event _ ih =>
    have hstep := refines_step lib h event
    exact hstep.trans (ih hstep.tidy)

end

section

variable (options : ClientOptions)
include options

theorem tidy_start : (start options).Tidy := ⟨nofun, nofun⟩

theorem ledger_start : (start options).ledger = .initial := by
  simp [ledger, start, Ledger.initial, Table.empty, Table.find?]

theorem steps_run (events : List Event) :
    Ledger.Steps carried .initial ((start options).run lib events).2
      ((start options).run lib events).1.ledger := by
  rw [← ledger_start]
  exact (refines_run lib (tidy_start options) events).steps

/-- In every session: no promise is settled twice, a promise that is not settled waits, and at the
end all are settled; a reply settles a promise only if it carries the id of the request, which is
sent and not settled yet; no id is both pending and retired; and if requests go out under the ids
that their texts carry and the server answers each of them once at most, no reply settles another
request than its own. -/
theorem rpc_correlation (events : List Event) :
    let c := ((start options).run lib events).1
    let log := ((start options).run lib events).2
    (settled log).Nodup ∧
    (∀ n, n < c.promises ↔ n ∈ settled log ∨ ∃ entry ∈ c.pending.rows, entry.promise = n) ∧
    (c.state = .closed → ∀ n < c.promises, n ∈ settled log) ∧
    (∀ before after n delivery, log = before ++ .answered n delivery :: after →
      ∃ id xml, delivery.reply.messageId = some id ∧ .issued n id xml ∈ before ∧
        n ∉ settled before) ∧
    (∀ id ∈ c.retiredMessageIds, c.pending.find? id = none) ∧
    (∀ wire source, Serves carried wire log source →
      (∀ n id xml, .issued n id xml ∈ log → wire xml = some id) →
      ∀ k n delivery, log[k]? = some (.answered n delivery) → n = source k) := by
  intro c log
  have hsteps : Ledger.Steps carried .initial log c.ledger := steps_run lib options events
  have hsound := Sound.steps hsteps
  have htidy : c.Tidy := (refines_run lib (tidy_start options) events).tidy
  have hpend : ∀ n, (∃ id, c.ledger.pending id = some n) ↔
      ∃ entry ∈ c.pending.rows, entry.promise = n := by
    intro n
    simp only [ledger, Option.map_eq_some_iff, find?_eq_some_iff]
    constructor
    · rintro ⟨-, entry, ⟨hmem, -⟩, hn⟩
      exact ⟨entry, hmem, hn⟩
    · rintro ⟨entry, hmem, hn⟩
      exact ⟨entry.messageId, entry, ⟨hmem, rfl⟩, hn⟩
  refine ⟨hsound.nodup, fun n => ?_, fun hcl n hn => ?_, ?_, fun id hid => ?_, ?_⟩
  · rw [← hpend]
    exact hsound.made n
  · refine (hsteps.mem_settled fun id => ?_).mp hn
    simp [ledger, Table.find?, htidy.closed hcl]
  · intro before after n delivery hlog
    rw [hlog] at hsteps
    exact hsteps.answered_waits
  · simpa [ledger] using hsound.disjoint (hid)
  · intro wire source hserv hwire k n delivery hk
    exact hsteps.answered_source hserv hwire hk

/-- In every session a timer that runs is that of a request that waits, so that no timer is left
once the session is over. -/
theorem run_timers (events : List Event) :
    let c := ((start options).run lib events).1
    (∀ timer ∈ c.timers, ∃ entry, c.pending.find? timer.messageId = some entry ∧
      entry.promise = timer.promise) ∧
    (c.state = .closed → c.pending.rows = [] ∧ c.timers = []) := by
  intro c
  have htidy : c.Tidy := (refines_run lib (tidy_start options) events).tidy
  refine ⟨htidy.timers, fun hcl => ⟨htidy.closed hcl, ?_⟩⟩
  refine eq_nil_iff_forall_not_mem.mpr fun timer htimer => ?_
  obtain ⟨entry, hentry, -⟩ := htidy.timers timer htimer
  have hmem := (find?_eq_some_iff.mp hentry).1
  rw [htidy.closed hcl] at hmem
  cases hmem

end

/-! ## Sessions where replies go astray -/

/-- The id in the opening tag of a request. -/
def wireId (xml : String) : Option String := okOr none (extractRpcMessageId xml)

/-- The hello of the server. -/
def sampleHello : String :=
  "<hello><capabilities><capability>urn:ietf:params:netconf:base:1.0</capability></capabilities>" ++
    "<session-id>1</session-id></hello>"

def sampleDocument : XmlNode :=
  .object [("hello", .object [("capabilities",
    .object [("capability", .text "urn:ietf:params:netconf:base:1.0")]),
      ("session-id", .text "1")])]

/-- What the library makes of `sampleHello` and of a reply without content. -/
def sampleLibrary : XmlLibrary where
  validate _ := none
  parse _ xml :=
    if xml = sampleHello then .ok sampleDocument
    else
      .ok (.object [("rpc-reply", .object [("@_message-id",
        .text (String.ofList ((findMessageId false xml.toList).getD [])))])])

def sampleMessage (xml : String) : Event := .data (encodeDelimiter (utf8Encode xml))

def sampleRpc (messageId : String) : Event :=
  .rpc { operationOrRpc := some "<get/>", messageId := .given messageId }

def sampleOptions : ClientOptions := { clientCapabilities := ["urn:ietf:params:netconf:base:1.0"] }

/-- What is logged after that hello. -/
def sampleLog (events : List Event) : List LogEntry :=
  ((start sampleOptions).run sampleLibrary (sampleMessage sampleHello :: events)).2

/-- A framer that gets one message and its delimiter returns the message and is empty again. -/
theorem push_message (f : DelimiterFramer) {xml : String}
    (hsize : (utf8Encode xml).length ≤ f.maxMessageSize)
    (hindex : indexOf delimiter (encodeDelimiter (utf8Encode xml)) = some (utf8Encode xml).length) :
    f.decoder.push DelimiterFramer.initial (encodeDelimiter (utf8Encode xml)) (some 1) =
      some (.returned [xml] DelimiterFramer.initial) := by
  have hnext : f.decoder.next () (encodeDelimiter (utf8Encode xml)) =
      .take (encodeDelimiter (utf8Encode xml)).length () (some xml) := by
    show f.next _ = _
    rw [DelimiterFramer.next, hindex]
    dsimp only
    rw [if_neg hsize.not_gt, encodeDelimiter, take_left, utf8Decode_utf8Encode, length_append]
  have hbuffer : DelimiterFramer.initial.append (encodeDelimiter (utf8Encode xml)) =
      ⟨(), encodeDelimiter (utf8Encode xml)⟩ := rfl
  obtain ⟨fuel, hfuel⟩ : ∃ fuel, (encodeDelimiter (utf8Encode xml)).length = fuel + 1 :=
    ⟨_, length_append⟩
  rw [Decoder.push, hbuffer, Decoder.drain, if_pos (by decide), hnext]
  dsimp only
  rw [drop_length, hfuel, Decoder.drain]
  rfl

theorem step_hello {c d : Client} {xml : String} (hstate : c.state = .hello)
    (hbuffer : c.helloBuffer = DelimiterFramer.initial)
    (hsize : (utf8Encode xml).length ≤ (DelimiterFramer.create c.options.framer).maxMessageSize)
    (hindex : indexOf delimiter (encodeDelimiter (utf8Encode xml)) = some (utf8Encode xml).length)
    (hhello : c.handleServerHello lib xml = .ok d) :
    c.step lib (.data (encodeDelimiter (utf8Encode xml))) = (d, []) := by
  have hsame : { c with helloBuffer := { DelimiterFramer.initial with buffer := [] } } = c := by
    cases c
    cases hbuffer
    rfl
  show c.handleData lib _ = _
  rw [handleData, hstate]
  dsimp only
  rw [handleHelloData, hbuffer, push_message _ hsize hindex]
  dsimp only
  rw [hsame, hhello]
  rfl

/-- The session after the hello of the server -/
def sampleConnected : Client :=
  { start sampleOptions with state := .connected }

theorem run_sampleHello (events : List Event) :
    ((start sampleOptions).run sampleLibrary (sampleMessage sampleHello :: events)).2 =
      (sampleConnected.run sampleLibrary events).2 := by
  have hsafe : assertSafeXml sampleOptions.framer.maxMessageSize sampleHello = .ok sampleHello := by
    rw [assertSafeXml, if_neg (by decide +kernel), if_neg (by decide +kernel)]
  have hhello : (start sampleOptions).handleServerHello sampleLibrary sampleHello =
      .ok sampleConnected := by
    refine bind_ok.mpr ⟨.hello (some "1") ["urn:ietf:params:netconf:base:1.0"], ?_, ?_⟩
    · have hparse : parseValidatedXml sampleLibrary false sampleHello = .ok sampleDocument := by
        have hvalid : sampleLibrary.validate sampleHello = none := rfl
        have hlib : sampleLibrary.parse false sampleHello = .ok sampleDocument := by
          simp only [sampleLibrary, if_pos]
        rw [parseValidatedXml, hvalid]
        dsimp only
        rw [hlib]
      refine bind_ok.mpr ⟨_, hsafe, bind_ok.mpr ⟨_, hparse, ?_⟩⟩
      rfl
    · rfl
  have hstep : (start sampleOptions).step sampleLibrary (sampleMessage sampleHello) =
      (sampleConnected, []) :=
    step_hello sampleLibrary rfl rfl (by decide +kernel) (by decide +kernel) hhello
  rw [run, hstep]
  rfl

/-- The text of the requests below. -/
def sampleXml : String :=
  "<rpc xmlns=\"urn:ietf:params:xml:ns:netconf:base:1.0\" message-id=\"7\"><get/></rpc>"

def sampleReply : Event := sampleMessage "<rpc-reply message-id=\"7\"/>"

/-- What is left of an entry without the texts of errors and replies. -/
def outline : LogEntry → Correlation.Entry String String (Option String) Unit
  | .issued n id xml => .issued n id xml
  | .refused n _ => .refused n ()
  | .answered n delivery => .answered n (carried delivery)
  | .orphan delivery => .orphan (carried delivery)
  | .abandoned n _ => .abandoned n ()
  | .dropped n _ => .dropped n ()
  | .closed => .closed

section

variable {log : List LogEntry} {k n : ℕ}

theorem replyAt_outline {reply : Delivery} (h : ReplyAt log k reply) :
    ReplyAt (log.map outline) k (carried reply) := by
  unfold ReplyAt
  rw [getElem?_map]
  obtain ⟨e, he, hreply⟩ := Option.bind_eq_some_iff.mp h
  rw [he]
  cases e <;> cases hreply <;> rfl

theorem issued_of_outline {id xml : String}
    (h : (log.map outline)[k]? = some (.issued n id xml)) : log[k]? = some (.issued n id xml) := by
  rw [getElem?_map] at h
  obtain ⟨e, he, heq⟩ := Option.map_eq_some_iff.mp h
  cases e <;> cases heq
  exact he

theorem answered_of_outline {carriedId : Option String}
    (h : (log.map outline)[k]? = some (.answered n carriedId)) :
    ∃ delivery, log[k]? = some (.answered n delivery) := by
  rw [getElem?_map] at h
  obtain ⟨e, he, heq⟩ := Option.map_eq_some_iff.mp h
  cases e <;> cases heq
  exact ⟨_, he⟩

theorem settled_outline (log : List LogEntry) : settled (log.map outline) = settled log := by
  unfold settled
  rw [filterMap_map]
  refine filterMap_congr fun e _ => ?_
  cases e <;> rfl

end

theorem wireId_sampleXml : wireId sampleXml = some "7" := by decide +kernel

/-- A late reply settles another request: if the id of the first request is sent without the space
that it starts with, though the server answers once and correctly; and if the server answers the
first request twice. -/
theorem late_reply_settles_other_request :
    (∃ events source k n delivery,
      Serves carried wireId (sampleLog events) source ∧
      (sampleLog events)[k]? = some (.answered n delivery) ∧
      source k ∈ settled ((sampleLog events).take k) ∧ n ≠ source k) ∧
    (∃ (events : List Event) (source : ℕ → ℕ) (k n : ℕ) (delivery : Delivery),
      (∀ j reply, ReplyAt (sampleLog events) j reply → ∃ i < j, ∃ id xml,
        (sampleLog events)[i]? = some (.issued (source j) id xml) ∧ carried reply = wireId xml) ∧
      (∀ n id xml, .issued n id xml ∈ sampleLog events → wireId xml = some id) ∧
      (sampleLog events)[k]? = some (.answered n delivery) ∧
      source k ∈ settled ((sampleLog events).take k) ∧ n ≠ source k) := by
  constructor
  · -- the space is not sent
    have h : (sampleLog [sampleRpc " 7", .timer 0, sampleRpc "7", sampleReply]).map outline =
        [.issued 0 " 7" sampleXml, .abandoned 0 (), .issued 1 "7" sampleXml,
          .answered 1 (some "7")] := by
      rw [sampleLog, run_sampleHello]
      decide +kernel
    obtain ⟨delivery, hans⟩ := answered_of_outline (k := 3) (by rw [h]; rfl)
    have hreply : ∀ {k reply}, ReplyAt (sampleLog [sampleRpc " 7", .timer 0, sampleRpc "7",
        sampleReply]) k reply → k = 3 ∧ carried reply = some "7" := by
      intro k reply hk
      have hk := replyAt_outline hk
      rcases k with _ | _ | _ | _ | k
      all_goals simp_all [ReplyAt, Entry.reply]
    refine ⟨_, fun _ => 0, 3, 1, delivery, ⟨fun hk => ?_, fun hj hk _ => ?_⟩, hans, ?_,
      by decide⟩
    · obtain ⟨rfl, hcarr⟩ := hreply hk
      exact ⟨0, by decide, " 7", sampleXml, issued_of_outline (by rw [h]; rfl),
        by rw [hcarr, wireId_sampleXml]⟩
    · rw [(hreply hj).1, (hreply hk).1]
    · rw [← settled_outline, map_take, h]
      decide
  · -- the server answers the first request twice
    have h : (sampleLog [sampleRpc "7", .timer 0, sampleReply, sampleRpc "7", sampleReply]).map
        outline = [.issued 0 "7" sampleXml, .abandoned 0 (), .orphan (some "7"),
          .issued 1 "7" sampleXml, .answered 1 (some "7")] := by
      rw [sampleLog, run_sampleHello]
      decide +kernel
    obtain ⟨delivery, hans⟩ := answered_of_outline (k := 4) (by rw [h]; rfl)
    refine ⟨_, fun _ => 0, 4, 1, delivery, fun j reply hj => ?_, fun n id xml hmem => ?_,
      hans, ?_, by decide⟩
    · have hplace : (j = 2 ∨ j = 4) ∧ carried reply = some "7" := by
        have hj := replyAt_outline hj
        rcases j with _ | _ | _ | _ | _ | j
        all_goals simp_all [ReplyAt, Entry.reply]
      exact ⟨0, by omega, "7", sampleXml, issued_of_outline (by rw [h]; rfl),
        by rw [hplace.2, wireId_sampleXml]⟩
    · have hmem := mem_map_of_mem (f := outline) hmem
      rw [h] at hmem
      simp only [outline, mem_cons, not_mem_nil, reduceCtorEq, false_or,
        or_false] at hmem
      rcases hmem with ⟨-, rfl, rfl⟩ | ⟨-, rfl, rfl⟩ <;> exact wireId_sampleXml
    · rw [← settled_outline, map_take, h]
      decide

theorem rpc_correlation_sample : ∃ n delivery,
    ((start sampleOptions).run sampleLibrary
      [sampleMessage sampleHello, sampleRpc "7", sampleReply]).2[1]? =
        some (.answered n delivery) ∧ n = 0 := by
  obtain ⟨-, -, -, -, -, hown⟩ := rpc_correlation sampleLibrary sampleOptions
    [sampleMessage sampleHello, sampleRpc "7", sampleReply]
  have hlog := run_sampleHello [sampleRpc "7", sampleReply]
  have h : (sampleConnected.run sampleLibrary [sampleRpc "7", sampleReply]).2.map outline =
      [.issued 0 "7" sampleXml, .answered 0 (some "7")] := by
    decide +kernel
  rw [hlog] at hown ⊢
  generalize (sampleConnected.run sampleLibrary [sampleRpc "7", sampleReply]).2 = log at h hown
  obtain ⟨delivery, hans⟩ := answered_of_outline (k := 1) (by rw [h]; rfl)
  have hreply : ∀ {k reply}, ReplyAt log k reply → k = 1 ∧ carried reply = some "7" := by
    intro k reply hk
    have hk := replyAt_outline hk
    rcases k with _ | _ | k
    all_goals simp_all [ReplyAt, Entry.reply]
  refine ⟨0, delivery, hans, hown wireId (fun _ => 0)
    ⟨fun hk => ?_, fun hj hk _ => ?_⟩ (fun n id xml hmem => ?_) 1 0 delivery hans⟩
  · obtain ⟨rfl, hcarr⟩ := hreply hk
    exact ⟨0, by decide, "7", sampleXml, issued_of_outline (by rw [h]; rfl),
      by rw [hcarr, wireId_sampleXml]⟩
  · rw [(hreply hj).1, (hreply hk).1]
  · have hmem : outline (.issued n id xml) ∈ log.map outline := mem_map_of_mem hmem
    rw [h] at hmem
    simp only [outline, mem_cons, not_mem_nil, reduceCtorEq, or_false] at hmem
    obtain ⟨-, rfl, rfl⟩ := hmem
    exact wireId_sampleXml

end Client

end Netconf
