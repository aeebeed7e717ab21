import NetNexus.Node.Path

/-!
# An FTP session

The commands of `FtpSession` from `handleCommand` on. What the session asks of the file system is
kept in `log`, and the callbacks that have not been called yet in `pending`; they are called in any
order and with any outcome, or never. The sockets of `PASV` and `PORT` belong to the environment,
which decides whether a data connection is made.
-/

namespace Ftp

open Node.Path

/-- `userConfig`, and the directory in which the process runs. -/
structure Config where
  username : Text
  password : Text
  rootDir : Text
  cwd : Text
  deriving DecidableEq

/-- The functions of `fs` that are called. -/
inductive FsFunction where
  | access
  | stat
  | readdir
  | createReadStream
  | createWriteStream
  | unlink
  | rmdir
  | mkdir
  deriving DecidableEq

/-- A call of the file system. -/
structure FsCall where
  function : FsFunction
  path : Text
  deriving DecidableEq

/-- The type of `TYPE` -/
inductive TransferType where
  | ascii
  | binary
  deriving DecidableEq

def TransferType.text : TransferType → Text
  | .ascii => "ascii".toList
  | .binary => "binary".toList

/-- What is called when an operation ends, named by the handler and the operation. -/
inductive Callback where
  | listAccess (fullPath : Text)
  | listConnection (fullPath : Text)
  | listRead (fullPath : Text)
  | listStat (fullPath : Text) (rest : List EntryName)
  | cwdAccess (newDir fullPath : Text)
  | cwdStat (newDir : Text)
  | retrAccess (filePath fullPath : Text)
  | retrStat (filePath fullPath : Text)
  | retrConnection (fullPath : Text)
  | storAccess (filePath fullPath : Text)
  | storConnection (fullPath : Text)
  | deleAccess (fullPath : Text)
  | rmdAccess (fullPath : Text)
  /-- The last operation of a command, with the answers to its failure and to its success. -/
  | finish (failed done : Text)
  /-- `error` of a stream. -/
  | streamError (failed : Text)
  /-- `close` of the data socket. -/
  | socketClose
  deriving DecidableEq

/-- How an operation ends. -/
structure Outcome where
  error : Bool := false
  isDirectory : Bool := false
  isFile : Bool := false
  size : ℕ := 0
  files : List EntryName := []

/-- A control connection, with its replies and the calls it makes. -/
structure Session where
  authenticated : Bool := false
  username : Option Text := none
  currentDir : Text := ['/']
  transferType : TransferType := .ascii
  closed : Bool := false
  replies : List Text := []
  pending : List Callback := []
  log : List FsCall := []
  deriving DecidableEq

/-! ## Commands -/

/-- The commands with a handler. -/
inductive Command where
  | user
  | pass
  | syst
  | pwd
  | type
  | pasv
  | port
  | list
  | cwd
  | cdup
  | retr
  | stor
  | quit
  | feat
  | opts
  | noop
  | dele
  | rmd
  | mkd
  deriving DecidableEq

def handlers : List (Text × Command) :=
  [("USER".toList, .user), ("PASS".toList, .pass), ("SYST".toList, .syst), ("PWD".toList, .pwd),
    ("TYPE".toList, .type), ("PASV".toList, .pasv), ("PORT".toList, .port), ("LIST".toList, .list),
    ("CWD".toList, .cwd), ("CDUP".toList, .cdup), ("RETR".toList, .retr), ("STOR".toList, .stor),
    ("QUIT".toList, .quit), ("FEAT".toList, .feat), ("OPTS".toList, .opts), ("NOOP".toList, .noop),
    ("DELE".toList, .dele), ("RMD".toList, .rmd), ("MKD".toList, .mkd)]

def noAuthRequired : List Command := [.user, .pass, .syst, .feat, .quit, .noop, .opts]

namespace Session

/-- `sendMsg` -/
def reply (s : Session) (text : Text) : Session :=
  { s with replies := if s.closed then s.replies else s.replies ++ [text] }

/-- A callback waits for an event. -/
def wait (s : Session) (callback : Callback) : Session :=
  { s with pending := s.pending ++ [callback] }

/-- A call of the file system, with its callback. -/
def call (s : Session) (function : FsFunction) (path : Text) (callback : Callback) : Session :=
  { s with log := s.log ++ [⟨function, path⟩], pending := s.pending ++ [callback] }

variable (c : Config) (s : Session)

def handleUser (username : Text) : Session :=
  if c.username = username then
    { s with username := some username }.reply "331 Username OK, password required".toList
  else s.reply "530 Authentication failed".toList

def handlePass (password : Text) : Session :=
  if some c.username = s.username ∧ c.password = password then
    { s with authenticated := true, currentDir := ['/'] }.reply
      "230 User logged in, proceed".toList
  else s.reply "530 Authentication failed".toList

def handleType (s : Session) (type : Text) : Session :=
  if type = ['A'] then
    { s with transferType := .ascii }.reply "200 Type set to ASCII".toList
  else if type = ['I'] then
    { s with transferType := .binary }.reply "200 Type set to binary".toList
  else s.reply "504 Type not implemented".toList

def handlePort (s : Session) (args : Text) : Session :=
  if (args.splitOn ',').length ≠ 6 then s.reply "501 Invalid PORT command".toList
  else s.reply "200 PORT command successful".toList

def handleList (args : Text) : Session :=
  let targetDir := if args = [] then s.currentDir else resolve c.cwd [s.currentDir, args]
  let fullPath := join [c.rootDir, targetDir]
  s.call .access fullPath (.listAccess fullPath)

/-- The directory to which `CWD` changes. A relative argument is normalised, an absolute one is
not. -/
def newDir (s : Session) (dir : Text) : Text :=
  if isAbsolute dir then dir
  else
    let newDir := if s.currentDir = ['/'] then '/' :: dir else s.currentDir ++ '/' :: dir
    '/' :: joinSegments (walk [] (segments newDir))

def handleCwd (dir : Text) : Session :=
  let newDir := s.newDir dir
  let fullPath := join [c.rootDir, newDir]
  s.call .access fullPath (.cwdAccess newDir fullPath)

def handleCdup : Session := s.handleCwd c parent

/-- The path of a file or directory in the current directory. -/
def fullPath (name : Text) : Text := join [c.rootDir, s.currentDir, name]

def handleRetr (filePath : Text) : Session :=
  s.call .access (s.fullPath c filePath) (.retrAccess filePath (s.fullPath c filePath))

def handleStor (filePath : Text) : Session :=
  s.call .access (dirname (s.fullPath c filePath)) (.storAccess filePath (s.fullPath c filePath))

def handleDele (filePath : Text) : Session :=
  s.call .access (s.fullPath c filePath) (.deleAccess (s.fullPath c filePath))

def handleRmd (dirPath : Text) : Session :=
  s.call .access (s.fullPath c dirPath) (.rmdAccess (s.fullPath c dirPath))

def handleMkd (dirPath : Text) : Session :=
  s.call .mkdir (s.fullPath c dirPath)
    (.finish "550 Failed to create directory".toList
      ("257 \"".toList ++ dirPath ++ "\" created".toList))

def handleFeat (s : Session) : Session :=
  ["211-Features:", " UTF8", " SIZE", " PASV", " TYPE A;I", "211 End"].foldl
    (fun s line => s.reply line.toList) s

def handleOpts (s : Session) (args : Text) : Session :=
  if (args.takeWhile (· ≠ ' ')).map Char.toUpper = "UTF8".toList then
    s.reply "200 UTF8 set to ON".toList
  else s.reply "501 Option not supported".toList

/-- `closeSession` -/
def handleQuit (s : Session) : Session := { s.reply "221 Goodbye".toList with closed := true }

def handle (args : Text) : Command → Session
  | .user => s.handleUser c args
  | .pass => s.handlePass c args
  | .syst => s.reply "215 UNIX Type: L8".toList
  | .pwd => s.reply ("257 \"".toList ++ s.currentDir ++ "\" is the current directory".toList)
  | .type => s.handleType args
  | .pasv => s
  | .port => s.handlePort args
  | .list => s.handleList c args
  | .cwd => s.handleCwd c args
  | .cdup => s.handleCdup c
  | .retr => s.handleRetr c args
  | .stor => s.handleStor c args
  | .quit => s.handleQuit
  | .feat => s.handleFeat
  | .opts => s.handleOpts args
  | .noop => s.reply "200 NOOP command successful".toList
  | .dele => s.handleDele c args
  | .rmd => s.handleRmd c args
  | .mkd => s.handleMkd c args

def handleCommand (cmd args : Text) : Session :=
  match handlers.lookup cmd with
  | some command =>
    if !s.authenticated && command ∉ noAuthRequired then s.reply "530 Not logged in".toList
    else s.handle c args command
  | none => s.reply ("502 Command '".toList ++ cmd ++ "' not implemented".toList)

/-! ## Callbacks -/

/-- The entries of a directory, one after the other. -/
def getFileInfo (s : Session) (fullPath : Text) : List EntryName → Session
  | [] => s.reply "226 Transfer complete".toList
  | file :: rest => s.call .stat (join [fullPath, file.val]) (.listStat fullPath rest)

/-- The callbacks of the handlers. -/
def callback (s : Session) (result : Outcome) : Callback → Session
  | .listAccess fullPath =>
    if result.error then s.reply "550 Directory not accessible".toList
    else
      (s.reply "150 Opening ASCII mode data connection for file list".toList).wait
        (.listConnection fullPath)
  | .listConnection fullPath =>
    if result.error then s.reply "425 Cannot open data connection".toList
    else s.call .readdir fullPath (.listRead fullPath)
  | .listRead fullPath =>
    if result.error then s.reply "550 Failed to list directory".toList
    else s.getFileInfo fullPath result.files
  | .listStat fullPath rest => s.getFileInfo fullPath rest
  | .cwdAccess newDir fullPath =>
    if result.error then s.reply "550 Directory not accessible".toList
    else s.call .stat fullPath (.cwdStat newDir)
  | .cwdStat newDir =>
    if result.error || !result.isDirectory then s.reply "550 Not a directory".toList
    else { s with currentDir := newDir }.reply ("250 Directory changed to ".toList ++ newDir)
  | .retrAccess filePath fullPath =>
    if result.error then s.reply "550 File not accessible".toList
    else s.call .stat fullPath (.retrStat filePath fullPath)
  | .retrStat filePath fullPath =>
    if result.error || !result.isFile then s.reply "550 Not a regular file".toList
    else
      (s.reply ("150 Opening ".toList ++ s.transferType.text ++
        " mode data connection for ".toList ++
        filePath ++ " (".toList ++ (toString result.size).toList ++ " bytes)".toList)).wait
        (.retrConnection fullPath)
  | .retrConnection fullPath =>
    if result.error then s.reply "425 Cannot open data connection".toList
    else
      (s.call .createReadStream fullPath (.streamError "550 Failed to read file".toList)).wait
        .socketClose
  | .storAccess filePath fullPath =>
    if result.error then s.reply "550 Directory not writable".toList
    else
      (s.reply ("150 Opening ".toList ++ s.transferType.text ++
        " mode data connection for ".toList ++
        filePath)).wait (.storConnection fullPath)
  | .storConnection fullPath =>
    if result.error then s.reply "425 Cannot open data connection".toList
    else
      (s.call .createWriteStream fullPath (.streamError "550 Failed to write file".toList)).wait
        .socketClose
  | .deleAccess fullPath =>
    if result.error then s.reply "550 File not accessible".toList
    else
      s.call .unlink fullPath
        (.finish "550 Failed to delete file".toList "250 File deleted".toList)
  | .rmdAccess fullPath =>
    if result.error then s.reply "550 Directory not accessible".toList
    else
      s.call .rmdir fullPath
        (.finish "550 Failed to remove directory".toList "250 Directory removed".toList)
  | .finish failed done => if result.error then s.reply failed else s.reply done
  | .streamError failed => s.reply failed
  | .socketClose => s.reply "226 Transfer complete".toList

end Session

/-! ## Runs -/

/-- A command arrives, or the operation of a callback ends. -/
inductive Event where
  | command (cmd args : Text)
  | ended (index : ℕ) (result : Outcome)

namespace Session

def step (c : Config) (s : Session) : Event → Session
  | .command cmd args => s.handleCommand c cmd args
  | .ended index result =>
    match s.pending[index]? with
    | some callback => { s with pending := s.pending.eraseIdx index }.callback result callback
    | none => s

def run (c : Config) (s : Session) (events : List Event) : Session := events.foldl (step c) s

end Session

/-! ## Confinement -/

/-- The segments lead from the root to the root or to a place below it. -/
def Config.Inside (c : Config) (segments : List Text) : Prop :=
  place c.cwd c.rootDir <+: walk (place c.cwd c.rootDir) segments

instance (c : Config) (segments : List Text) : Decidable (c.Inside segments) :=
  inferInstanceAs (Decidable (place c.cwd c.rootDir <+: _))

/-- The arguments of a command do not lead out of the root: those of a file or a directory from the
current one, those of `CWD` if they are absolute. What is stored is not the root itself. -/
def Config.Keeps (c : Config) (s : Session) (args : Text) : Command → Prop
  | .cwd => isAbsolute args → c.Inside (segments args)
  | .retr | .dele | .rmd | .mkd => c.Inside (segments s.currentDir ++ segments args)
  | .stor =>
    c.Inside (segments s.currentDir ++ segments args) ∧
      walk (place c.cwd c.rootDir) (segments s.currentDir ++ segments args) ≠ place c.cwd c.rootDir
  | _ => True

/-- The event is not a command of a user that leads out of the root. -/
def Config.Permits (c : Config) (s : Session) : Event → Prop
  | .command cmd args =>
    ∀ command, handlers.lookup cmd = some command → s.authenticated → c.Keeps s args command
  | .ended _ _ => True

/-- Every event of the run is permitted in the state that it meets. -/
def Config.PermitsRun (c : Config) (s : Session) : List Event → Prop
  | [] => True
  | event :: rest => c.Permits s event ∧ c.PermitsRun (s.step c event) rest

end Ftp
