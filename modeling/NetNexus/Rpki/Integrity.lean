import NetNexus.Rpki.Router
import NetNexus.Rpki.Session

/-!
# Response integrity

What the stream of PDUs of a session should look like, and what keeps it so: while a response is
under way, no message is processed that makes the session write at once or change its version, and
the records that are sent fit their fields.
-/

namespace Rpki

open Node

def pduVersion (pdu : Buffer) : UInt8 := pdu.getD 0 0

def pduType (pdu : Buffer) : UInt8 := pdu.getD 1 0

def IsCacheResponse (pdu : Buffer) : Prop := pduType pdu = 3

def IsEndOfData (pdu : Buffer) : Prop := pduType pdu = 7

/-- Prefix, router key and ASPA PDUs. -/
def IsPayload (pdu : Buffer) : Prop :=
  pduType pdu = 4 ∨ pduType pdu = 6 ∨ pduType pdu = 9 ∨ pduType pdu = 11

instance (pdu : Buffer) : Decidable (IsCacheResponse pdu) := inferInstanceAs (Decidable (_ = _))

instance (pdu : Buffer) : Decidable (IsEndOfData pdu) := inferInstanceAs (Decidable (_ = _))

instance (pdu : Buffer) : Decidable (IsPayload pdu) := inferInstanceAs (Decidable (_ ∨ _))

/-- From a Cache Response up to its End of Data there are payload PDUs only, and all of them and
the End of Data have the version of the Cache Response. -/
def Intact (written : List Buffer) : Prop :=
  ∀ before response after, written = before ++ response :: after → IsCacheResponse response →
    ∀ during pdu rest, after = during ++ pdu :: rest → (∀ p ∈ during, ¬ IsEndOfData p) →
      pduVersion pdu = pduVersion response ∧ (IsPayload pdu ∨ IsEndOfData pdu)

/-! ## What a task still has to do -/

namespace Task

/-- The Cache Response of the task is written. -/
def started : Task → Bool
  | .snapshot _ _ _ => true
  | .delta _ _ _ => true
  | _ => false

/-- The PDUs that are built but not written. -/
def pdus : Task → List Buffer
  | .snapshot writing _ _ => writing.chunk ++ writing.pdus
  | .delta pdus _ _ => pdus
  | _ => []

/-- The records of a started task that are not built yet. -/
def records : Task → List Operation
  | .snapshot writing lists _ => writing.items ++ lists.flatMap Prod.snd
  | .delta _ operations _ => operations
  | _ => []

end Task

/-- The PDUs of a record can be built. -/
def Encoding.Sendable (c : Encoding) (operation : Operation) : Prop :=
  (∀ roa ∈ operation.roas, c.ipaddr.parse roa.ip ≠ none) ∧ c.OperationFits operation

namespace Session

variable (s : Session)

/-- The Cache Response of a response is written, but not its End of Data. -/
def responding : Bool := s.sendQueue.head?.any Task.started

/-- A message that can be processed while a response is under way: a Serial Query that gets a
response, a Reset Query for the version in use or for one that closes the session, or an Error
Report of full length. -/
def Harmless (worker : Worker) (message : Buffer) : Prop :=
  (pduType message = 1 ∧ pduVersion message = s.protocolVersion.byte ∧
      ∃ serial, readUInt32BE message headerLength = some serial ∧
        readUInt16BE message 2 = s.sessionId ∧
        (UInt32.ofNat serial = worker.cacheSerial ∨
          worker.getDeltaOperationsSince (UInt32.ofNat serial) ≠ none)) ∨
    (pduType message = 2 ∧ (pduVersion message = s.protocolVersion.byte ∨
      pduVersion message > s.maxSupportedVersion.byte)) ∨
    (pduType message = 10 ∧ headerLength + 4 ≤ message.length)

/-- What the router and the cache must respect for the event. -/
def Meets : Event → Prop
  | .data worker buffer =>
    ∀ handled ∈ (s.recvMsg worker buffer).1, handled.1.responding →
      handled.1.Harmless worker handled.2
  | .resume _ _ =>
    ∀ task ∈ s.sendQueue.head?, ∀ record ∈ task.records, s.encoding.Sendable record
  | .serialNotify => True
  | .close => True

/-- Every event of a run meets the condition when it happens. -/
def MeetsAll (s : Session) : List Event → Prop
  | [] => True
  | event :: events => s.Meets event ∧ (s.step event).MeetsAll events

end Session

end Rpki
