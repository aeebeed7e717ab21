import NetNexus.Node.Path
import NetNexus.Node.Text

/-!
# Receiving FTP commands

`recvMsg` of an FTP session keeps what has arrived of the next line and hands the lines before it
to `processMessage`. `toUpperCase` is a parameter.
-/

namespace Ftp

open Node Node.Path

/-- `text.split('\r\n')`: the parts that are followed by another one, and the last one. -/
def splitLines : Text → List Text × Text
  | [] => ([], [])
  | [c] => ([], [c])
  | c :: d :: rest =>
    if c = '\r' ∧ d = '\n' then ([] :: (splitLines rest).1, (splitLines rest).2)
    else
      match splitLines (d :: rest) with
      | ([], last) => ([], c :: last)
      | (line :: lines, last) => ((c :: line) :: lines, last)

def quit : Text := "QUIT".toList

/-- What has not been processed yet, and the calls of `handleCommand`. -/
structure Receiver where
  messageBuffer : Buffer := []
  handled : List (Text × Text) := []

variable (toUpperCase : Text → Text)

/-- The command and the arguments of a line. -/
def parseCommand (line : Text) : Text × Text :=
  let parts := (trim line).splitOn ' '
  (toUpperCase (parts.headD []), [' '].intercalate parts.tail)

namespace Receiver

variable (r : Receiver)

def processMessage (message : Buffer) : Receiver :=
  { r with handled := r.handled ++ [parseCommand toUpperCase (utf8Decode message).toList] }

def recvMsg (buffer : Buffer) : Receiver :=
  let messageBuffer := r.messageBuffer ++ buffer
  let (lines, last) := splitLines (utf8Decode messageBuffer).toList
  if lines = [] then { r with messageBuffer }
  else
    ((lines.filter (· ≠ [])).map fun line => utf8Encode (String.ofList line)).foldl
      (processMessage toUpperCase) { r with messageBuffer := utf8Encode (String.ofList last) }

/-- `handleQuit` has destroyed the socket. -/
def closed : Bool := r.handled.any (·.1 = quit)

/-- The calls of `recvMsg` with the pieces of a stream, until the socket is destroyed. -/
def recvAll (pieces : List Buffer) : Receiver :=
  pieces.foldl (fun r piece => if r.closed then r else r.recvMsg toUpperCase piece) r

end Receiver

/-! ## What is to be handled -/

def calls (lines : List Text) : List (Text × Text) :=
  (lines.filter (· ≠ [])).map (parseCommand toUpperCase)

def upToQuit : List (Text × Text) → List (Text × Text)
  | [] => []
  | call :: rest => if call.1 = quit then [call] else call :: upToQuit rest

/-- The lines that have ended in the first bytes of a stream. -/
def linesOf (bytes : Buffer) : List Text := (splitLines (utf8Decode bytes).toList).1

/-- The pieces that follow the first bytes of a stream are handled as its lines are: a piece that
ends a line ends none behind a `QUIT`, and if it cuts a character, no line ends later. -/
def clean : Buffer → List Buffer → Bool
  | _, [] => true
  | before, piece :: pieces =>
    let bytes := before ++ piece
    let found := calls toUpperCase ((linesOf bytes).drop (linesOf before).length)
    if linesOf bytes = linesOf before then clean bytes pieces
    else upToQuit found = found && (found.any (·.1 = quit) ||
      if utf8Encode (utf8Decode bytes) = bytes then clean bytes pieces
      else linesOf (bytes ++ pieces.flatten) = linesOf bytes)

end Ftp
