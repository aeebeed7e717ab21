import NetNexus.Node.Path
import NetNexus.Tftp.Session

/-!
# The path of a TFTP request
-/

namespace Tftp

open Node.Path

/-- The configuration of the server, as far as a request is concerned, and the directory in which
the process runs. -/
structure Config where
  rootDir : Text
  allowRead : Bool
  allowWrite : Bool
  cwd : Text

/-- `resolveSafePath`: the path of a file below the root. -/
def Config.resolveSafePath (c : Config) (filename : Text) : Option Text :=
  let rootDir := resolve c.cwd [c.rootDir]
  let target := resolve c.cwd [rootDir, '.' :: '/' :: filename]
  let rel := relative rootDir target
  if rel = [] ∨ parent <+: rel ∨ isAbsolute rel then none else some target

/-- The path that `beginRead` or `beginWrite` hands to the file system, or the error sent. -/
def Config.requestPath (c : Config) (kind : Kind) (filename : Text) :
    Except (ErrorCode × String) Text :=
  match kind with
  | .read =>
    if !c.allowRead then .error (.accessViolation, "服务器禁止读取")
    else
      match c.resolveSafePath filename with
      | some fullPath => .ok fullPath
      | none => .error (.accessViolation, "非法的文件路径")
  | .write =>
    if !c.allowWrite then .error (.accessViolation, "服务器禁止写入")
    else
      match c.resolveSafePath filename with
      | some fullPath => .ok fullPath
      | none => .error (.accessViolation, "非法的文件路径")

end Tftp
