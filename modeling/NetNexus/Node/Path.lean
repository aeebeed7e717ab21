import Mathlib.Algebra.Order.Ring.Int
import Mathlib.Data.List.DropRight

/-!
# Paths

The functions of Node's `path` on POSIX systems, on texts as lists of characters, and the place in
the tree that a path leads to if links are ignored.
-/

namespace Node.Path

abbrev Text := List Char

def parent : Text := ['.', '.']

/-- The parts between slashes. Empty ones and `.` lead nowhere. -/
def segments (path : Text) : List Text :=
  (path.splitOn '/').filter fun segment => segment ≠ [] && segment ≠ ['.']

def isAbsolute (path : Text) : Bool := path.head? = some '/'

/-- A segment in the loop of `normalizeString`. -/
def push (allowAboveRoot : Bool) (done : List Text) (segment : Text) : List Text :=
  if segment = parent then
    match done.getLast? with
    | some last =>
      if last = parent then if allowAboveRoot then done ++ [parent] else done else done.dropLast
    | none => if allowAboveRoot then [parent] else []
  else done ++ [segment]

/-- The segments that `normalizeString` leaves. -/
def normalizeSegments (allowAboveRoot : Bool) (path : Text) : List Text :=
  (segments path).foldl (push allowAboveRoot) []

def joinSegments (segments : List Text) : Text := ['/'].intercalate segments

/-- `path.normalize` -/
def normalize (path : Text) : Text :=
  let rest := normalizeSegments (!isAbsolute path) path
  let slash := if path.getLast? = some '/' then ['/'] else []
  if path = [] then ['.']
  else if rest = [] then if isAbsolute path then ['/'] else '.' :: slash
  else (if isAbsolute path then ['/'] else []) ++ joinSegments rest ++ slash

/-- `path.join` -/
def join (parts : List Text) : Text := normalize (joinSegments (parts.filter (· ≠ [])))

/-- A part in the loop of `resolve`: an absolute one makes those before it void. -/
def resolveStep (resolved part : Text) : Text :=
  if part = [] then resolved else if isAbsolute part then part else resolved ++ '/' :: part

/-- `path.resolve` -/
def resolve (cwd : Text) (parts : List Text) : Text :=
  '/' :: joinSegments (normalizeSegments false (parts.foldl resolveStep cwd))

/-- `path.dirname` -/
def dirname (path : Text) : Text :=
  -- what stands before the last segment, from its slash on in reverse
  match (path.rdropWhile (· = '/')).reverse.dropWhile (· ≠ '/') with
  | [] => if isAbsolute path then ['/'] else ['.']
  | [_] => ['/']
  | [_, '/'] => ['/', '/']
  | _ :: before => before.reverse

def commonLength : List Text → List Text → ℕ
  | a :: as, b :: bs => if a = b then commonLength as bs + 1 else 0
  | _, _ => 0

/-- What `readdir` gives as the name of an entry. -/
abbrev EntryName :=
  { name : Text // name ≠ [] ∧ '/' ∉ name ∧ name ≠ ['.'] ∧ name ≠ parent }

/-- `path.relative` of absolute paths. -/
def relative (source target : Text) : Text :=
  let source := normalizeSegments false source
  let target := normalizeSegments false target
  let common := commonLength source target
  joinSegments (List.replicate (source.length - common) parent ++ target.drop common)

/-! ## The tree -/

def walkStep (place : List Text) (segment : Text) : List Text :=
  if segment = parent then place.dropLast else place ++ [segment]

def walk (place segments : List Text) : List Text := segments.foldl walkStep place

/-- The place to which a path leads from the working directory. -/
def place (cwd path : Text) : List Text :=
  walk (if isAbsolute path then [] else walk [] (segments cwd)) (segments path)

def Within (cwd root path : Text) : Prop := place cwd root <+: place cwd path

end Node.Path
