import NetNexus.Ftp.Session
import NetNexus.Node.Proofs.PathProofs
import NetNexus.Tftp.Proofs.SessionProofs

/-!
# The file servers stay in their root

A session keeps its paths below the root as long as no command leads out of it, and asks nothing of
the file system before the user has logged in. A TFTP request never leads out of the root.
-/

namespace Ftp

open Node.Path List

variable {c : Config}

/-! ## The paths of the handlers -/

def Config.Holds (c : Config) (path : Text) : Prop := Within c.cwd c.rootDir path

section

variable (hroot : c.rootDir ≠ [])
include hroot

theorem holds_join_iff (parts : List Text) :
    c.Holds (join (c.rootDir :: parts)) ↔ c.Inside (parts.flatMap segments) := by
  unfold Config.Holds Within Config.Inside
  rw [place_join c.cwd hroot]

theorem holds_join_dir_iff (dir : Text) :
    c.Holds (join [c.rootDir, dir]) ↔ c.Inside (segments dir) := by
  have hiff := holds_join_iff hroot [dir]
  rwa [flatMap_singleton] at hiff

theorem holds_fullPath_iff (s : Session) (name : Text) :
    c.Holds (s.fullPath c name) ↔ c.Inside (segments s.currentDir ++ segments name) := by
  have hiff := holds_join_iff hroot [s.currentDir, name]
  rwa [flatMap_cons, flatMap_singleton] at hiff

theorem holds_dirname {s : Session} {name : Text} (h : c.Keeps s name .stor) :
    c.Holds (dirname (s.fullPath c name)) := by
  have hplace := place_join c.cwd hroot [s.currentDir, name]
  rw [flatMap_cons, flatMap_singleton] at hplace
  refine within_dirname ((holds_fullPath_iff hroot s name).mpr h.1) ?_
  exact fun heq => h.2 (hplace.symm.trans heq)

end

theorem inside_rooted (c : Config) (path : Text) :
    c.Inside (segments ('/' :: joinSegments (walk [] (segments path)))) := by
  unfold Config.Inside
  rw [walk_rooted]
  exact prefix_append ..

theorem inside_resolve (c : Config) (parts : List Text) :
    c.Inside (segments (resolve c.cwd parts)) := by
  rw [resolve_eq]
  exact inside_rooted c _

variable {s : Session} {dir : Text} {path : Text} {command : Command}

theorem inside_newDir (h : isAbsolute dir → c.Inside (segments dir)) :
    c.Inside (segments (s.newDir dir)) := by
  unfold Session.newDir
  split
  · rename_i habs
    exact h habs
  · exact inside_rooted c _

theorem holds_entry (h : c.Holds path) (hne : path ≠ []) (file : EntryName) :
    c.Holds (join [path, file.val]) := by
  obtain ⟨name, hname, hslash, hdot, hpar⟩ := file
  unfold Config.Holds Within
  rw [place_join c.cwd hne, flatMap_singleton, segments_of_isName ⟨hname, hslash, hdot⟩]
  show _ <+: walkStep _ name
  unfold walkStep
  rw [if_neg hpar]
  exact h.trans (prefix_append ..)

/-! ## Confinement -/

/-- What a callback will hand to the file system is within the root, and so is the directory to
which it changes. -/
def Callback.Safe (c : Config) : Callback → Prop
  | .listAccess path | .listConnection path | .listRead path | .listStat path _ =>
    c.Holds path ∧ path ≠ []
  | .cwdAccess newDir path => c.Holds path ∧ c.Inside (segments newDir)
  | .cwdStat newDir => c.Inside (segments newDir)
  | .retrAccess _ path | .retrStat _ path | .retrConnection path | .storAccess _ path
  | .storConnection path | .deleAccess path | .rmdAccess path => c.Holds path
  | .finish _ _ | .streamError _ | .socketClose => True

/-- Whatever the session does or will do stays in the root. -/
structure Confined (c : Config) (s : Session) : Prop where
  log : ∀ call ∈ s.log, c.Holds call.path
  pending : ∀ callback ∈ s.pending, callback.Safe c
  currentDir : c.Inside (segments s.currentDir)

namespace Confined

theorem initial (c : Config) : Confined c {} :=
  ⟨nofun, nofun, prefix_refl _⟩

variable (h : Confined c s)
include h

theorem reply (text : Text) : Confined c (s.reply text) :=
  { h with }

/-- A callback replies with the failure of its operation or goes on. -/
theorem replyOr {p : Prop} [Decidable p] (text : Text) {t : Session}
    (ht : Confined c t) : Confined c (if p then s.reply text else t) := by
  split
  · exact h.reply text
  · exact ht

theorem changeDir (hdir : c.Inside (segments dir)) : Confined c { s with currentDir := dir } :=
  ⟨h.log, h.pending, hdir⟩

theorem wait {callback : Callback} (hsafe : callback.Safe c) : Confined c (s.wait callback) :=
  ⟨h.log, forall_mem_append.mpr ⟨h.pending, forall_mem_singleton.mpr hsafe⟩, h.currentDir⟩

theorem call {callback : Callback} (function : FsFunction) (hpath : c.Holds path)
    (hsafe : callback.Safe c) : Confined c (s.call function path callback) :=
  ⟨forall_mem_append.mpr ⟨h.log, forall_mem_singleton.mpr hpath⟩, (h.wait hsafe).pending,
    h.currentDir⟩

theorem getFileInfo (hpath : c.Holds path) (hne : path ≠ []) (files : List EntryName) :
    Confined c (s.getFileInfo path files) := by
  cases files with
  | nil => exact h.reply _
  | cons file _ => exact h.call .stat (holds_entry hpath hne file) ⟨hpath, hne⟩

theorem callback {callback : Callback} (hsafe : callback.Safe c)
    (result : Outcome) : Confined c (s.callback result callback) := by
  cases callback with
  | listAccess _ | retrStat _ _ | storAccess _ _ =>
    exact h.replyOr _ ((h.reply _).wait hsafe)
  | listConnection _ => exact h.replyOr _ (h.call .readdir hsafe.1 hsafe)
  | listRead _ => exact h.replyOr _ (h.getFileInfo hsafe.1 hsafe.2 _)
  | listStat _ rest => exact h.getFileInfo hsafe.1 hsafe.2 rest
  | cwdAccess _ _ => exact h.replyOr _ (h.call .stat hsafe.1 hsafe.2)
  | cwdStat _ => exact h.replyOr _ ((h.changeDir hsafe).reply _)
  | retrAccess _ _ => exact h.replyOr _ (h.call .stat hsafe hsafe)
  | retrConnection _ =>
    refine h.replyOr _ ((h.call .createReadStream hsafe ?_).wait ?_) <;> trivial
  | storConnection _ =>
    refine h.replyOr _ ((h.call .createWriteStream hsafe ?_).wait ?_) <;> trivial
  | deleAccess _ => exact h.replyOr _ (h.call .unlink hsafe trivial)
  | rmdAccess _ => exact h.replyOr _ (h.call .rmdir hsafe trivial)
  | finish _ _ => exact h.replyOr _ (h.reply _)
  | streamError _ | _ => exact h.reply _

variable (hroot : c.rootDir ≠ [])
include hroot

theorem handleList (args : Text) : Confined c (s.handleList c args) := by
  have hpath : c.Holds (join [c.rootDir,
      if args = [] then s.currentDir else resolve c.cwd [s.currentDir, args]]) := by
    rw [holds_join_dir_iff hroot]
    split
    · exact h.currentDir
    · exact inside_resolve c _
  exact h.call .access hpath ⟨hpath, normalize_ne_nil _⟩

theorem handleCwd (hdir : isAbsolute dir → c.Inside (segments dir)) :
    Confined c (s.handleCwd c dir) := by
  have hnew : c.Inside (segments (s.newDir dir)) := inside_newDir hdir
  have hpath := (holds_join_dir_iff hroot _).mpr hnew
  exact h.call .access hpath ⟨hpath, hnew⟩

theorem handle {args : Text} (hkeeps : c.Keeps s args command) :
    Confined c (s.handle c args command) := by
  have hpath : c.Inside (segments s.currentDir ++ segments args) → c.Holds (s.fullPath c args) :=
    (holds_fullPath_iff hroot s args).mpr
  cases command with
  | user =>
    simp only [Session.handle, Session.handleUser]
    split
    · exact { h with }
    · exact h.reply _
  | pass =>
    simp only [Session.handle, Session.handlePass]
    split
    · exact ⟨h.log, h.pending, prefix_refl _⟩
    · exact h.reply _
  | type =>
    simp only [Session.handle, Session.handleType]
    split
    · exact { h with }
    · split
      · exact { h with }
      · exact h.reply _
  | port => exact h.replyOr _ (h.reply _)
  | opts =>
    simp only [Session.handle, Session.handleOpts]
    split <;> exact h.reply _
  | list => exact h.handleList hroot args
  | cwd => exact h.handleCwd hroot hkeeps
  | cdup => exact h.handleCwd hroot fun habs => absurd habs (by decide)
  | retr | dele | rmd => exact h.call .access (hpath hkeeps) (hpath hkeeps)
  | stor => exact h.call .access (holds_dirname hroot hkeeps) (hpath hkeeps.1)
  | mkd => exact h.call .mkdir (hpath hkeeps) trivial
  | pasv => exact h
  | feat =>
    simp only [Session.handle, Session.handleFeat, foldl, Session.reply]
    exact { h with }
  | syst | pwd | quit | _ => exact { h with }

theorem handleCommand {cmd args : Text}
    (hperm : c.Permits s (.command cmd args)) : Confined c (s.handleCommand c cmd args) := by
  unfold Session.handleCommand
  split
  · rename_i command hlook
    split
    · exact h.reply _
    · rename_i hauth
      by_cases hlog : s.authenticated
      · exact h.handle hroot (hperm command hlook hlog)
      · -- what is allowed before the login has no path to keep
        have hfree : command ∈ noAuthRequired := by simpa [hlog] using hauth
        refine h.handle hroot ?_
        simp only [noAuthRequired, mem_cons, not_mem_nil, or_false] at hfree
        rcases hfree with rfl | rfl | rfl | rfl | rfl | rfl | rfl <;> trivial
  · exact h.reply _

theorem step {event : Event} (hperm : c.Permits s event) : Confined c (s.step c event) := by
  cases event with
  | command _ _ => exact h.handleCommand hroot hperm
  | ended index result =>
    simp only [Session.step]
    split
    · rename_i callback hget
      have hrest : Confined c { s with pending := s.pending.eraseIdx index } :=
        ⟨h.log, fun other hmem => h.pending other (mem_of_mem_eraseIdx hmem), h.currentDir⟩
      exact hrest.callback (h.pending callback (mem_of_getElem? hget)) result
    · exact h

theorem run {events : List Event}
    (hperm : c.PermitsRun s events) : Confined c (s.run c events) := by
  induction events generalizing s with
  | nil => exact h
  | cons _ _ ih => exact ih (h.step hroot hperm.1) hperm.2

end Confined

/-- A command of a user that does not keep to the root does lead out of it, unless it is `STOR`. -/
theorem exists_not_holds (hroot : c.rootDir ≠ []) {cmd args : Text}
    (hlook : handlers.lookup cmd = some command) (hlog : s.authenticated)
    (hstor : command ≠ .stor) (hkeeps : ¬ c.Keeps s args command) :
    ∃ call ∈ (s.handleCommand c cmd args).log, ¬ c.Holds call.path := by
  have hhandle : s.handleCommand c cmd args = s.handle c args command := by
    unfold Session.handleCommand
    rw [hlook, hlog]
    rfl
  have hcall : ∀ function path callback,
      s.handle c args command = s.call function path callback → ¬ c.Holds path →
        ∃ call ∈ (s.handleCommand c cmd args).log, ¬ c.Holds call.path := by
    intro function path callback heq hpath
    refine ⟨⟨function, path⟩, ?_, hpath⟩
    rw [hhandle, heq]
    exact mem_append_right _ (mem_singleton_self _)
  have hpath : ¬ c.Inside (segments s.currentDir ++ segments args) →
      ¬ c.Holds (s.fullPath c args) := fun hout hin =>
        hout ((holds_fullPath_iff hroot s args).mp hin)
  cases command with
  | cwd =>
    obtain ⟨habs, hout⟩ := Classical.not_imp.mp hkeeps
    refine hcall _ _ _ rfl fun hin => hout ?_
    have hnew := (holds_join_dir_iff hroot _).mp hin
    rwa [Session.newDir, if_pos habs] at hnew
  | retr | dele | rmd | mkd => exact hcall _ _ _ rfl (hpath hkeeps)
  | stor => exact absurd rfl hstor
  | _ => exact absurd trivial hkeeps

/-! ## Login -/

def Config.userCommand (c : Config) : Event := .command "USER".toList c.username

def Config.passCommand (c : Config) : Event := .command "PASS".toList c.password

def Session.SameLogin (s t : Session) : Prop :=
  t.authenticated = s.authenticated ∧ t.username = s.username

open Session

theorem sameLogin_callback (s : Session) (result : Outcome) (callback : Callback) :
    s.SameLogin (s.callback result callback) := by
  cases callback with
  | listStat _ rest => cases rest <;> exact ⟨rfl, rfl⟩
  | listRead _ =>
    simp only [callback]
    split
    · exact ⟨rfl, rfl⟩
    · cases result.files <;> exact ⟨rfl, rfl⟩
  | streamError | socketClose => exact ⟨rfl, rfl⟩
  | listAccess | listConnection | cwdAccess | cwdStat | retrAccess | retrStat | retrConnection
  | storAccess | storConnection | deleAccess | rmdAccess | _ =>
    simp only [callback]
    split <;> exact ⟨rfl, rfl⟩

theorem sameLogin_handle (s : Session) (args : Text) (huser : command ≠ .user)
    (hpass : command ≠ .pass) : s.SameLogin (s.handle c args command) := by
  cases command with
  | user => exact absurd rfl huser
  | pass => exact absurd rfl hpass
  | type =>
    simp only [handle, handleType]
    split
    · exact ⟨rfl, rfl⟩
    · split <;> exact ⟨rfl, rfl⟩
  | port =>
    simp only [handle, handlePort]
    split <;> exact ⟨rfl, rfl⟩
  | opts =>
    simp only [handle, handleOpts]
    split <;> exact ⟨rfl, rfl⟩
  | feat =>
    simp only [handle, handleFeat, foldl, reply]
    exact ⟨rfl, rfl⟩
  | syst | pwd | pasv | list | cwd | cdup | retr | stor | quit | noop | dele | rmd | _ =>
    exact ⟨rfl, rfl⟩

/-- What needs no login leaves the file system alone. -/
theorem handle_of_noAuth (s : Session) (args : Text) (h : command ∈ noAuthRequired) :
    (s.handle c args command).log = s.log ∧ (s.handle c args command).pending = s.pending := by
  simp only [noAuthRequired, mem_cons, not_mem_nil, or_false] at h
  rcases h with rfl | rfl | rfl | rfl | rfl | rfl | rfl
  · simp only [handle, handleUser]
    split <;> exact ⟨rfl, rfl⟩
  · simp only [handle, handlePass]
    split <;> exact ⟨rfl, rfl⟩
  · exact ⟨rfl, rfl⟩
  · simp only [handle, handleFeat, foldl, reply, and_self]
  · exact ⟨rfl, rfl⟩
  · exact ⟨rfl, rfl⟩
  · simp only [handle, handleOpts]
    split <;> exact ⟨rfl, rfl⟩

/-- The session knows no more of the user than the events told it. -/
structure Told (c : Config) (events : List Event) (s : Session) : Prop where
  username : s.username = some c.username → [c.userCommand] <+ events
  authenticated : s.authenticated → [c.userCommand, c.passCommand] <+ events
  idle : s.authenticated = false → s.log = [] ∧ s.pending = []

namespace Told

variable {events : List Event}

/-- Only the two names stand for the commands of the login. -/
theorem eq_of_lookup {cmd : Text} (h : handlers.lookup cmd = some command) :
    (command = .user → cmd = "USER".toList) ∧ (command = .pass → cmd = "PASS".toList) := by
  obtain ⟨before, _, heq, _⟩ := lookup_eq_some_iff.mp h
  have hmem : (cmd, command) ∈ handlers :=
    heq ▸ mem_append_right before mem_cons_self
  simp only [handlers] at hmem
  constructor
  · rintro rfl
    simpa using hmem
  · rintro rfl
    simpa using hmem

section

variable (h : Told c events s)
include h

/-- A step that leaves the login as it is, and the file system alone if there is none. -/
theorem of_sameLogin {t : Session} (event : Event) (hsame : s.SameLogin t)
    (hidle : s.authenticated = false → t.log = [] ∧ t.pending = []) :
    Told c (events ++ [event]) t := by
  have hmore : events <+ events ++ [event] := sublist_append_left ..
  refine ⟨fun hname => ?_, fun hlog => ?_, fun hlog => hidle (hsame.1 ▸ hlog)⟩
  · exact (h.username (hsame.2 ▸ hname)).trans hmore
  · exact (h.authenticated (hsame.1 ▸ hlog)).trans hmore

theorem handleUser (args : Text) :
    Told c (events ++ [.command "USER".toList args]) (s.handleUser c args) := by
  unfold Session.handleUser
  split
  · rename_i heq
    refine ⟨fun _ => ?_, fun hlog => ?_, h.idle⟩
    · rw [← heq]
      exact sublist_append_right ..
    · exact (h.authenticated hlog).trans (sublist_append_left ..)
  · exact h.of_sameLogin _ ⟨rfl, rfl⟩ h.idle

theorem handlePass (args : Text) :
    Told c (events ++ [.command "PASS".toList args]) (s.handlePass c args) := by
  unfold Session.handlePass
  split
  · rename_i heq
    refine ⟨fun hname => ?_, fun _ => ?_, fun hlog => ?_⟩
    · exact (h.username hname).trans (sublist_append_left ..)
    · have huser := h.username heq.1.symm
      rw [← heq.2]
      exact huser.append (List.Sublist.refl [c.passCommand])
    · exact absurd (show true = false from hlog) (by decide)
  · exact h.of_sameLogin _ ⟨rfl, rfl⟩ h.idle

theorem handleCommand (cmd args : Text) :
    Told c (events ++ [.command cmd args]) (s.handleCommand c cmd args) := by
  unfold Session.handleCommand
  split
  · rename_i command hlook
    obtain ⟨huser, hpass⟩ := eq_of_lookup hlook
    split
    · exact h.of_sameLogin _ ⟨rfl, rfl⟩ h.idle
    · rename_i hauth
      by_cases hu : command = .user
      · rw [huser hu, hu]
        exact h.handleUser args
      · by_cases hp : command = .pass
        · rw [hpass hp, hp]
          exact h.handlePass args
        · refine h.of_sameLogin _ (sameLogin_handle s args hu hp) fun hlog => ?_
          have hfree : command ∈ noAuthRequired := by simpa [hlog] using hauth
          rw [(handle_of_noAuth s args hfree).1, (handle_of_noAuth s args hfree).2]
          exact h.idle hlog
  · exact h.of_sameLogin _ ⟨rfl, rfl⟩ h.idle

theorem step (event : Event) : Told c (events ++ [event]) (s.step c event) := by
  cases event with
  | command cmd args => exact h.handleCommand cmd args
  | ended _ result =>
    simp only [Session.step]
    split
    · rename_i callback hget
      refine h.of_sameLogin _ (sameLogin_callback _ result callback) fun hlog => ?_
      rw [(h.idle hlog).2] at hget
      exact absurd hget (by simp)
    · exact h.of_sameLogin _ ⟨rfl, rfl⟩ h.idle

end

theorem run (c : Config) (events : List Event) : Told c events (Session.run c {} events) := by
  induction events using List.reverseRecOn with
  | nil =>
    exact ⟨fun hname => absurd hname (by simp [Session.run]),
      fun hlog => absurd hlog (by simp [Session.run]), fun _ => ⟨rfl, rfl⟩⟩
  | append_singleton _ event ih =>
    unfold Session.run
    rw [foldl_append]
    exact ih.step event

end Told

/-- Nothing is asked of the file system before the user has logged in. -/
theorem login_of_log_ne_nil {events : List Event} (h : (Session.run c {} events).log ≠ []) :
    [c.userCommand, c.passCommand] <+ events := by
  have htold := Told.run c events
  refine htold.authenticated ?_
  by_contra hlog
  exact h (htold.idle (by simpa using hlog)).1

/-- The servers stay in their root. In a session whose commands keep to the root, every path handed
to the file system does, and a command other than `STOR` that does not keep to it hands over a path
that leads out. Before the login nothing is handed over. The paths of TFTP requests are always
within the root. -/
theorem files_confined (c : Config) (hroot : c.rootDir ≠ []) (t : Tftp.Config) :
    (∀ events, c.PermitsRun {} events → ∀ call ∈ (Session.run c {} events).log,
      Within c.cwd c.rootDir call.path) ∧
    (∀ (s : Session) (cmd args : Text) (command : Command), handlers.lookup cmd = some command →
      s.authenticated → command ≠ .stor → ¬ c.Keeps s args command →
        ∃ call ∈ (s.handleCommand c cmd args).log, ¬ Within c.cwd c.rootDir call.path) ∧
    (∀ events, (Session.run c {} events).log ≠ [] →
      [.command "USER".toList c.username, .command "PASS".toList c.password] <+ events) ∧
    ∀ kind filename path, t.requestPath kind filename = .ok path → Within t.cwd t.rootDir path := by
  refine ⟨fun events hperm => ?_, fun s cmd args command => ?_, fun events hlog => ?_,
    fun kind filename path hpath => ?_⟩
  · exact ((Confined.initial c).run hroot hperm).log
  · exact exists_not_holds hroot
  · exact login_of_log_ne_nil hlog
  · exact Tftp.within_of_requestPath hpath

/-! ## Sample sessions -/

/-- A server of `/srv/ftp`. -/
def sample : Config where
  username := "u".toList
  password := "p".toList
  rootDir := "/srv/ftp".toList
  cwd := ['/']

def login : List Event := [sample.userCommand, sample.passCommand]

/-- A directory is entered and a file above it is read. -/
def readsAbove : List Event :=
  login ++ [.command "CWD".toList "a".toList, .ended 0 {}, .ended 0 { isDirectory := true },
    .command "RETR".toList "../x".toList]

theorem permitsRun_readsAbove : sample.PermitsRun {} readsAbove := by
  refine ⟨?_, ?_, ?_, trivial, trivial, ?_, trivial⟩
  · exact fun command hlook hlog => absurd hlog (by decide)
  · exact fun command hlook hlog => absurd hlog (by decide)
  · intro command hlook _
    obtain rfl : Command.cwd = command := Option.some.inj hlook
    exact fun habs => absurd habs (by decide)
  · intro command hlook _
    obtain rfl : Command.retr = command := Option.some.inj hlook
    have hinside : sample.Inside (segments "/a".toList ++ segments "../x".toList) := by decide
    exact hinside

theorem files_confined_readsAbove :
    (∀ call ∈ (Session.run sample {} readsAbove).log, Within ['/'] "/srv/ftp".toList call.path) ∧
      ((Session.run sample {} readsAbove).log.map FsCall.path).getLast? =
        some "/srv/ftp/x".toList :=
  ⟨(files_confined sample (by decide) ⟨['/'], true, true, ['/']⟩).1 readsAbove
    permitsRun_readsAbove, by decide +kernel⟩

/-- The run handed a path over that leads out of the root. -/
def Escapes (events : List Event) : Prop :=
  ∃ call ∈ (Session.run sample {} events).log, ¬ Within sample.cwd sample.rootDir call.path

instance (events : List Event) : Decidable (Escapes events) :=
  inferInstanceAs (Decidable (∃ call ∈ _, ¬ place sample.cwd sample.rootDir <+: _))

/-- A file above the root is read, the directory above it is listed, and it is asked whether that
directory can be written. -/
theorem files_escape :
    Escapes (login ++ [.command "RETR".toList "../../etc/passwd".toList]) ∧
    Escapes (login ++ [.command "CWD".toList "/..".toList, .ended 0 {},
      .ended 0 { isDirectory := true }, .command "LIST".toList []]) ∧
    Escapes (login ++ [.command "STOR".toList ".".toList]) := by
  decide +kernel

end Ftp
