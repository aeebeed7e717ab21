import NetNexus.Node.Bytes

/-!
# Receiving BMP

The receiver of `BmpSession`: `recvMsg` cuts what arrives into frames and keeps the bytes of an
incomplete frame in blocks. What the handlers of the message types do is a parameter, of which the
receiver only sees whether they close the session.
-/

namespace Bmp

open Node

/-- `BMP_HEADER_LENGTH` -/
def headerLength : ℕ := 6

/-- `MAX_BMP_MESSAGE_BYTES` -/
def maxMessageBytes : ℕ := 16 * 1024 * 1024

/-- `BMP_BUFFER_BLOCK_BYTES` -/
def bufferBlockBytes : ℕ := 64 * 1024

/-! ## Blocks -/

/-- A block of `size` bytes and those of them that are used. -/
structure Block where
  size : ℕ
  bytes : Buffer := []
  deriving DecidableEq

/-- What has been received of a frame. -/
structure FrameState where
  blocks : List Block := []
  bytes : ℕ := 0
  capacity : ℕ := 0
  length : ℕ := 0
  closed : Bool := false
  deriving DecidableEq

def bufferedFrame (state : FrameState) : Buffer :=
  match state.blocks with
  | [] => []
  | [block] => block.bytes.take state.bytes
  | blocks => concat (blocks.map Block.bytes) state.bytes

/-- The block that is written next: a new one if there is none or the last one is full. -/
def FrameState.openBlock (state : FrameState) (limit : ℕ) : FrameState × List Block × Block :=
  let fresh : FrameState × List Block × Block :=
    let capacity := min bufferBlockBytes (limit - state.capacity)
    ({ state with capacity := state.capacity + capacity }, state.blocks, { size := capacity })
  match state.blocks.getLast? with
  | none => fresh
  | some block =>
    if block.bytes.length = block.size then fresh else (state, state.blocks.dropLast, block)

/-- The loop of `appendFrameBytes`; `none` if it has not ended after `fuel` rounds. -/
def appendLoop (limit : ℕ) : ℕ → FrameState → Buffer → Option FrameState
  | _, state, [] => some state
  | 0, _, _ :: _ => none
  | fuel + 1, state, data =>
    let (state, before, block) := state.openBlock limit
    let copied := min data.length (block.size - block.bytes.length)
    appendLoop limit fuel
      { state with
        blocks := before ++ [{ block with bytes := block.bytes ++ data.take copied }]
        bytes := state.bytes + copied }
      (data.drop copied)

/-- `appendFrameBytes` of all of `data`. Every round copies a byte at least. -/
def appendFrameBytes (state : FrameState) (data : Buffer) (limit : ℕ) : Option FrameState :=
  appendLoop limit data.length state data

/-! ## Headers -/

def versionField (buffer : Buffer) : ℕ := (buffer.headD 0).toNat

def lengthField (buffer : Buffer) : ℕ := ofBytes ((buffer.drop 1).take 4)

def typeField (buffer : Buffer) : ℕ := (buffer.getD 5 0).toNat

/-- The version is known and the length within the limits. -/
def ValidHeader (buffer : Buffer) : Prop :=
  (versionField buffer = 3 ∨ versionField buffer = 4) ∧ headerLength ≤ lengthField buffer ∧
    lengthField buffer ≤ maxMessageBytes

instance (buffer : Buffer) : Decidable (ValidHeader buffer) := inferInstanceAs (Decidable (_ ∧ _))

/-! ## The session -/

/-- The handlers of the message types: what becomes of the state of the session, and whether it is
closed on the way. -/
abbrev Handlers (σ : Type) := σ → (version type : ℕ) → Buffer → σ × Bool

/-- A session with the frames that were handed to `processMessage` so far. -/
structure Session (σ : Type) where
  inner : σ
  state : FrameState := {}
  frames : List Buffer := []

variable {σ : Type} (handlers : Handlers σ)

/-- What `processMessage` does with the state of the session. -/
def processMessage (inner : σ) (message : Buffer) : σ × Bool :=
  if message.length < headerLength then (inner, false)
  else if lengthField message ≠ message.length ∨ lengthField message < headerLength ∨
      maxMessageBytes < lengthField message then (inner, true)
  else if versionField message ≠ 3 ∧ versionField message ≠ 4 then (inner, true)
  else handlers inner (versionField message) (typeField message)
    ((message.take (lengthField message)).drop headerLength)

namespace Session

variable (session : Session σ)

/-- What `closeSession` does to the receiver. -/
def closeSession : Session σ :=
  { session with state := { closed := true } }

def handOn (frame : Buffer) : Session σ :=
  let (inner, closed) := processMessage handlers session.inner frame
  { inner, frames := session.frames ++ [frame]
    state := if closed then { closed := true } else session.state }

/-- How a round of the loop of `recvMsg` ends. -/
inductive Round (σ : Type) where
  | stop (session : Session σ)
  | again (session : Session σ) (rest : Buffer)

/-- The part of a round in which the length of the frame is known. -/
def recvBody (rest : Buffer) : Option (Round σ) := do
  let count := min (session.state.length - session.state.bytes) rest.length
  let state ← appendFrameBytes session.state (rest.take count) session.state.length
  if state.bytes < state.length then return .stop { session with state }
  else
    return .again (handOn handlers { session with state := { closed := state.closed } }
      (bufferedFrame state)) (rest.drop count)

def recvBuffered (rest : Buffer) : Option (Round σ) :=
  if headerLength ≤ session.state.bytes then session.recvBody handlers rest
  else do
    let count := min (headerLength - session.state.bytes) rest.length
    let state ← appendFrameBytes session.state (rest.take count) headerLength
    if state.bytes < headerLength then return .stop { session with state }
    else
      let header := (state.blocks.headD { size := 0 }).bytes
      if ValidHeader header then
        recvBody handlers { session with state := { state with length := lengthField header } }
          (rest.drop count)
      else return .stop (closeSession { session with state })

/-- A round of the loop of `recvMsg`. A frame that is complete in what has arrived is not kept. -/
def recvRound (rest : Buffer) : Option (Round σ) :=
  if session.state.bytes = 0 ∧ headerLength ≤ rest.length then
    if ValidHeader rest then
      if lengthField rest ≤ rest.length then
        some (.again (session.handOn handlers (rest.take (lengthField rest)))
          (rest.drop (lengthField rest)))
      else session.recvBuffered handlers rest
    else some (.stop session.closeSession)
  else session.recvBuffered handlers rest

/-- The loop of `recvMsg` over what has arrived; `none` if it has not ended after `fuel` rounds. -/
def recvLoop : ℕ → Session σ → Buffer → Option (Session σ)
  | 0, _, _ => none
  | fuel + 1, session, rest =>
    if rest = [] ∨ session.state.closed then some session
    else
      match session.recvRound handlers rest with
      | none => none
      | some (.stop session) => some session
      | some (.again session rest) => recvLoop fuel session rest

/-- `recvMsg`. Every round but the last takes a byte at least. -/
def recvMsg (buffer : Buffer) : Option (Session σ) :=
  session.recvLoop handlers (buffer.length + 1) buffer

/-- The calls of `recvMsg` with the pieces of a stream. -/
def recvAll (pieces : List Buffer) : Option (Session σ) :=
  pieces.foldlM (recvMsg handlers) session

end Session

end Bmp
