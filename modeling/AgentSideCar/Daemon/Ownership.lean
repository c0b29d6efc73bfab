import AgentSideCar.Library.Holder
import AgentSideCar.Send.LiveOwnerRows

namespace AgentSideCar.Ownership

inductive Kind where
  | regular
  | directory
  | socket
  | link
  | other
deriving DecidableEq

-- What stands at a path, as lstat tells it, and what is written there.
structure Entry where
  identity : Nat
  kind : Kind
  owner : Nat
  links : Nat
  mode : Nat
  content : List UInt8
deriving DecidableEq

-- The runtime directory and its three paths, who holds which file locked, and which sockets accept connections.
structure Runtime where
  directory : Option Entry
  lockfile : Option Entry
  socket : Option Entry
  pidfile : Option Entry
  locks : Nat → Option Nat
  accepting : Nat → Bool

structure Setup where
  user : Nat
  socketPath : String
  pidfilePath : String
  pid : Nat → Nat

-- How a daemon that does not serve any more has ended.
inductive Failure where
  | alreadyRunning (message : String)
  | runtimePath (message : String)
  | raised (message : String)
deriving DecidableEq

-- The lock that it holds, the socket it has bound, and the identities it has recorded of its own paths.
structure Hold where
  lock : Nat
  listener : Option Nat
  socketIdentity : Option Nat
  pidfileIdentity : Option Nat

inductive Stage where
  | inspectSocket
  | unlinkSocket
  | inspectPidfile
  | unlinkPidfile
  | bind
  | identify
  | listen
  | create
  | describe (fd : Nat)
  | write (fd : Nat) (payload : List UInt8)
  | serving
  | closing (ended : Option Failure)
  | lookSocket (ended : Option Failure)
  | dropSocket (ended : Option Failure)
  | lookPidfile (ended : Option Failure)
  | dropPidfile (ended : Option Failure)
  | release (ended : Option Failure)

inductive Place where
  | idle (ended : Option Failure)
  | made
  | inspected (directory : Nat)
  | secured
  | opened (fd : Nat)
  | checked (fd : Nat)
  | flocked (fd : Nat)
  | held (h : Hold) (stage : Stage)

-- The next system call: it goes well, with the identity of what it makes or the bytes it takes; it is
-- refused; or the process dies.
inductive Act where
  | go (identity count : Nat)
  | refuse (error : String)
  | crash

def Place.Out : Place → Prop
  | .held _ _ => False
  | _ => True

-- The lock that a place holds.
def Place.lock : Place → Option Nat
  | .flocked fd => some fd
  | .held h _ => some h.lock
  | _ => none

def Place.listener : Place → Option Nat
  | .held h _ => h.listener
  | _ => none

def unlock (i : Nat) (locks : Nat → Option Nat) : Nat → Option Nat := fun fd => if locks fd = some i then none else locks fd

def lockFor (i fd : Nat) (locks : Nat → Option Nat) : Nat → Option Nat := fun file => if file = fd then some i else locks file

def hush (listener : Option Nat) (accepting : Nat → Bool) : Nat → Bool := fun identity => accepting identity && listener ≠ some identity

def socketIsLive (r : Runtime) : Bool := r.socket.any fun e => e.kind = .socket && r.accepting e.identity

variable (setup : Setup)

def payload (i : Nat) : List UInt8 := (Digits.digits (setup.pid i)).map (fun c => c.toNat.toUInt8) ++ [10]

def entry (identity : Nat) (kind : Kind) (mode : Nat) : Entry := ⟨identity,kind,setup.user,1,mode,[]⟩

-- `_prepare_runtime_paths` up to the lock: the directory is there, is the user's own, and is private.
def makeDirectory (identity : Nat) (r : Runtime) : Runtime × Place :=
  match r.directory with
  | none => ({r with directory := some (entry setup identity .directory 0o700)},.made)
  | some d => (r,if d.kind = .directory ∨ d.kind = .link then .made else .idle (some (.raised "File exists")))

def inspectDirectory (r : Runtime) : Place :=
  match r.directory with
  | none => .idle (some (.runtimePath "cannot inspect daemon runtime directory"))
  | some d =>
    if d.kind ≠ .directory ∨ d.owner ≠ setup.user then .idle (some (.runtimePath "daemon runtime path is not a current-user directory"))
    else .inspected d.identity

def secureDirectory (identity : Nat) (r : Runtime) : Runtime × Place :=
  match r.directory with
  | none => (r,.idle (some (.runtimePath "cannot secure daemon runtime directory")))
  | some d =>
    if d.kind ≠ .directory ∨ d.owner ≠ setup.user ∨ identity ≠ d.identity then
      (r,.idle (some (.runtimePath "daemon runtime directory changed while securing it")))
    else ({r with directory := some {d with mode := 0o700}},.secured)

def openLock (identity : Nat) (r : Runtime) : Runtime × Place :=
  match r.lockfile with
  | none => ({r with lockfile := some (entry setup identity .regular 0o600)},.opened identity)
  | some e =>
    if e.kind = .directory ∨ e.kind = .socket ∨ e.kind = .link then (r,.idle (some (.runtimePath "cannot open daemon ownership lock")))
    else (r,.opened e.identity)

def checkLock (fd : Nat) (r : Runtime) : Runtime × Place :=
  match r.lockfile with
  | none => (r,.idle (some (.runtimePath "cannot inspect daemon ownership lock")))
  | some e =>
    if e.kind ≠ .regular ∨ e.owner ≠ setup.user ∨ e.links ≠ 1 ∨ fd ≠ e.identity then
      (r,.idle (some (.runtimePath "daemon ownership lock is unsafe")))
    else ({r with lockfile := some {e with mode := 0o600}},.checked fd)

def flock (i fd : Nat) (r : Runtime) : Runtime × Place :=
  match r.locks fd with
  | some _ => (r,.idle (some (.alreadyRunning "daemon runtime is already owned")))
  | none => ({r with locks := lockFor i fd r.locks},.flocked fd)

-- Looked at once more while locked: the file may have been replaced in between.
def confirmLock (i fd : Nat) (r : Runtime) : Runtime × Place :=
  match r.lockfile with
  | none => ({r with locks := unlock i r.locks},.idle (some (.raised "lstat")))
  | some e =>
    if fd ≠ e.identity then
      ({r with locks := unlock i r.locks},.idle (some (.runtimePath "daemon ownership lock changed while locking")))
    else (r,.held ⟨fd,none,none,none⟩ .inspectSocket)

def proceed (i identity count : Nat) (r : Runtime) (h : Hold) : Stage → Runtime × Place
  | .inspectSocket => match r.socket with
    | none => (r,.held h .inspectPidfile)
    | some e =>
      if e.kind ≠ .socket then
        (r,.held h (.closing (some (.runtimePath ("refusing to replace non-socket path " ++ setup.socketPath)))))
      else if r.accepting e.identity then
        (r,.held h (.closing (some (.alreadyRunning "daemon socket is already accepting connections"))))
      else (r,.held h .unlinkSocket)
  | .unlinkSocket => ({r with socket := none},.held h .inspectPidfile)
  | .inspectPidfile => match r.pidfile with
    | none => (r,.held h .bind)
    | some e =>
      if e.kind ≠ .regular then
        (r,.held h (.closing (some (.runtimePath ("refusing to replace non-regular pidfile " ++ setup.pidfilePath)))))
      else (r,.held h .unlinkPidfile)
  | .unlinkPidfile => ({r with pidfile := none},.held h .bind)
  | .bind => match r.socket with
    | some _ => (r,.held h (.closing (some (.alreadyRunning "daemon socket is already in use"))))
    | none => ({r with socket := some (entry setup identity .socket 0o755)},.held {h with listener := some identity} .identify)
  | .identify => match r.socket with
    | none => (r,.held h (.closing (some (.raised "lstat"))))
    | some e => ({r with socket := some {e with mode := 0o600}},.held {h with socketIdentity := some e.identity} .listen)
  | .listen => ({r with accepting := fun identity => r.accepting identity || h.listener = some identity},.held h .create)
  | .create => match r.pidfile with
    | some _ => (r,.held h (.closing (some (.alreadyRunning "daemon socket is already in use"))))
    | none => ({r with pidfile := some (entry setup identity .regular 0o600)},.held h (.describe identity))
  | .describe fd => (r,.held {h with pidfileIdentity := some fd} (.write fd (payload setup i)))
  | .write fd rest =>
    if rest = [] then (r,.held h .serving)
    else if count = 0 then (r,.held h (.closing (some (.raised "short pidfile write"))))
    else ({r with pidfile := r.pidfile.map fun e => if e.identity = fd then {e with content := e.content ++ rest.take count} else e},
      .held h (.write fd (rest.drop count)))
  | .serving => (r,.held h (.closing none))
  | .closing ended => ({r with accepting := hush h.listener r.accepting},.held h (.lookSocket ended))
  | .lookSocket ended =>
    if r.socket.any (fun e => e.kind = .socket && h.socketIdentity = some e.identity) then (r,.held h (.dropSocket ended))
    else (r,.held h (.lookPidfile ended))
  | .dropSocket ended => ({r with socket := none},.held h (.lookPidfile ended))
  | .lookPidfile ended =>
    if r.pidfile.any (fun e => e.kind = .regular && h.pidfileIdentity = some e.identity) then (r,.held h (.dropPidfile ended))
    else (r,.held h (.release ended))
  | .dropPidfile ended => ({r with pidfile := none},.held h (.release ended))
  | .release ended => ({r with locks := unlock i r.locks},.idle ended)

-- What a refused call comes to: in the end it is passed over, and a descriptor is closed all the same.
def refused (i : Nat) (error : String) (r : Runtime) (h : Hold) : Stage → Runtime × Place
  | .inspectSocket => (r,.held h (.closing (some (.runtimePath ("cannot inspect daemon socket: " ++ error)))))
  | .unlinkSocket => (r,.held h (.closing (some (.runtimePath ("cannot remove stale socket: " ++ error)))))
  | .inspectPidfile => (r,.held h (.closing (some (.runtimePath ("cannot inspect pidfile: " ++ error)))))
  | .unlinkPidfile => (r,.held h (.closing (some (.runtimePath ("cannot remove stale pidfile: " ++ error)))))
  | .closing ended => proceed setup i 0 0 r h (.closing ended)
  | .lookSocket ended => (r,.held h (.lookPidfile ended))
  | .dropSocket ended => (r,.held h (.lookPidfile ended))
  | .lookPidfile ended => (r,.held h (.release ended))
  | .dropPidfile ended => (r,.held h (.release ended))
  | .release ended => proceed setup i 0 0 r h (.release ended)
  | _ => (r,.held h (.closing (some (.raised error))))

def go (i identity count : Nat) (r : Runtime) : Place → Runtime × Place
  | .idle _ => makeDirectory setup identity r
  | .made => (r,inspectDirectory setup r)
  | .inspected directory => secureDirectory setup directory r
  | .secured => openLock setup identity r
  | .opened fd => checkLock setup fd r
  | .checked fd => flock i fd r
  | .flocked fd => confirmLock i fd r
  | .held h stage => proceed setup i identity count r h stage

def refuse (i : Nat) (error : String) (r : Runtime) : Place → Runtime × Place
  | .idle _ => (r,.idle (some (.raised error)))
  | .made => (r,.idle (some (.runtimePath "cannot inspect daemon runtime directory")))
  | .inspected _ => (r,.idle (some (.runtimePath "cannot secure daemon runtime directory")))
  | .secured => (r,.idle (some (.runtimePath "cannot open daemon ownership lock")))
  | .opened _ => (r,.idle (some (.runtimePath "cannot inspect daemon ownership lock")))
  | .checked _ => (r,.idle (some (.runtimePath "cannot lock daemon runtime")))
  | .flocked _ => ({r with locks := unlock i r.locks},.idle (some (.raised error)))
  | .held h stage => refused setup i error r h stage

def crash (i : Nat) (r : Runtime) (x : Place) : Runtime × Place :=
  ({r with locks := unlock i r.locks,accepting := hush x.listener r.accepting},.idle none)

def step (i : Nat) : Act → Runtime → Place → Runtime × Place
  | .go identity count,r,x => go setup i identity count r x
  | .refuse error,r,x => refuse setup i error r x
  | .crash,r,x => crash i r x

-- Outside of the daemons somebody may take the lock file away or put another in its place.
def replaceLock (file : Option Entry) (r : Runtime) : Runtime := {r with lockfile := file}

-- The text of the pidfile, as `int` reads it.
def points (content : List UInt8) : LiveOwner.Text := content.map fun b => .char (Char.ofNat b.toNat)

def readPid (unicode : LiveOwner.Unicode) (r : Runtime) : Option Nat :=
  (r.pidfile.filter fun e => e.kind = .regular && e.content.all (· < 128)).bind fun e =>
    match LiveOwner.int unicode (LiveOwner.strip (points e.content)) with
    | some pid => if 0 < pid then some pid.toNat else none
    | none => none

inductive Signal where
  | sent
  | gone
  | denied
  | failed
deriving DecidableEq

def runtimeOwner (unicode : LiveOwner.Unicode) (kill : Nat → Signal) (r : Runtime) : Option Nat :=
  (readPid unicode r).filter fun pid => kill pid = .sent || kill pid = .denied

-- A path that a daemon may take over: nothing stands there, or a socket that nobody answers at, or a plain pidfile.
def SocketClear (r : Runtime) : Prop := ∀ e, r.socket = some e → e.kind = .socket ∧ r.accepting e.identity = false
def PidfileClear (r : Runtime) : Prop := ∀ e, r.pidfile = some e → e.kind = .regular

def hushed (r : Runtime) (listener : Option Nat) : Runtime := {r with accepting := hush listener r.accepting}

-- While nobody holds the lock, each path is as clear as it was, and what was in the way still stands there.
structure Rests (start r : Runtime) : Prop where
  socket : SocketClear r ↔ SocketClear start
  pidfile : PidfileClear r ↔ PidfileClear start
  socketStays : ¬ SocketClear start → r.socket = start.socket
  pidfileStays : ¬ PidfileClear start → r.pidfile = start.pidfile

def Hold.Bare (h : Hold) : Prop := h.listener = none ∧ h.socketIdentity = none ∧ h.pidfileIdentity = none

-- The socket at the path is the daemon's own.
structure Bound (start r : Runtime) (h : Hold) : Prop where
  clear : SocketClear start ∧ PidfileClear start
  socket : ∃ e, r.socket = some e ∧ e.kind = .socket ∧ h.listener = some e.identity

structure Listening (start r : Runtime) (h : Hold) : Prop extends Bound start r h where
  named : h.socketIdentity = h.listener
  live : ∀ identity, h.listener = some identity → r.accepting identity = true

def Written (r : Runtime) (fd : Nat) (content : List UInt8) : Prop :=
  ∃ e, r.pidfile = some e ∧ e.kind = .regular ∧ e.identity = fd ∧ e.content = content

-- Once its listener is closed it may let go of the lock, and it has recorded identities of clear paths only.
structure Closable (start r : Runtime) (h : Hold) : Prop where
  rests : Rests start (hushed r h.listener)
  socket : h.socketIdentity ≠ none → SocketClear start
  pidfile : h.pidfileIdentity ≠ none → PidfileClear start

def Quiet (r : Runtime) (h : Hold) : Prop := hush h.listener r.accepting = r.accepting

-- What the holder of the lock keeps at each stage.
def Stands (start r : Runtime) (i : Nat) (h : Hold) : Stage → Prop
  | .inspectSocket => Rests start r ∧ h.Bare
  | .unlinkSocket => Rests start r ∧ h.Bare ∧ SocketClear r
  | .inspectPidfile => Rests start r ∧ h.Bare ∧ r.socket = none
  | .unlinkPidfile => Rests start r ∧ h.Bare ∧ r.socket = none ∧ PidfileClear r
  | .bind => Rests start r ∧ h.Bare ∧ r.socket = none ∧ r.pidfile = none
  | .identify => Bound start r h ∧ h.socketIdentity = none ∧ h.pidfileIdentity = none ∧ r.pidfile = none
  | .listen => Bound start r h ∧ h.socketIdentity = h.listener ∧ h.pidfileIdentity = none ∧ r.pidfile = none
  | .create => Listening start r h ∧ h.pidfileIdentity = none ∧ r.pidfile = none
  | .describe fd => Listening start r h ∧ h.pidfileIdentity = none ∧ Written r fd []
  | .write fd rest => Listening start r h ∧ h.pidfileIdentity = some fd ∧
      ∃ done, Written r fd done ∧ done ++ rest = payload setup i
  | .serving => Listening start r h ∧ ∃ fd, h.pidfileIdentity = some fd ∧ Written r fd (payload setup i)
  | .closing _ => Closable start r h
  | .dropSocket _ => Closable start r h ∧ Quiet r h ∧ SocketClear start
  | .dropPidfile _ => Closable start r h ∧ Quiet r h ∧ PidfileClear start
  | _ => Closable start r h ∧ Quiet r h

def mine (i : Nat) (r : Runtime) (x : Place) : Prop := ∀ fd, r.locks fd = some i ↔ x.lock = some fd

def held (start : Runtime) (i : Nat) (r : Runtime) : Place → Prop
  | .held h stage => r.lockfile.map Entry.identity = some h.lock ∧ Stands setup start r i h stage
  | _ => False

variable {setup : Setup} {start r : Runtime} {h : Hold}

theorem hush_none (accepting : Nat → Bool) : hush none accepting = accepting := by
  funext identity
  simp [hush]

theorem hush_own (accepting : Nat → Bool) (identity : Nat) : hush (some identity) accepting identity = false := by
  simp [hush]

theorem hush_twice (listener : Option Nat) (accepting : Nat → Bool) : hush listener (hush listener accepting) = hush listener accepting := by
  funext identity
  simp [hush]

theorem Hold.Bare.quiet (bare : h.Bare) : hushed r h.listener = r := by
  rw [hushed,bare.1,hush_none]

theorem bare_closable (rests : Rests start r) (bare : h.Bare) : Closable start r h :=
  ⟨by rw [bare.quiet]; exact rests,fun own => absurd bare.2.1 own,fun own => absurd bare.2.2 own⟩

theorem Rests.clear (socket : SocketClear start ∧ PidfileClear start) (now : SocketClear r ∧ PidfileClear r) : Rests start r :=
  ⟨iff_of_true now.1 socket.1,iff_of_true now.2 socket.2,fun blocked => absurd socket.1 blocked,fun blocked => absurd socket.2 blocked⟩

theorem Bound.closable (bound : Bound start r h) (plain : PidfileClear r) : Closable start r h := by
  obtain ⟨e,there,kind,own⟩ := bound.socket
  refine ⟨.clear bound.clear ⟨?_,plain⟩,fun _ => bound.clear.1,fun _ => bound.clear.2⟩
  intro other same
  have one : some e = some other := there.symm.trans same
  cases one
  refine ⟨kind,?_⟩
  show hush h.listener r.accepting e.identity = false
  rw [own]
  exact hush_own _ _

theorem Written.clear (written : Written r fd content) : PidfileClear r := by
  obtain ⟨e,there,kind,_⟩ := written
  intro other same
  rw [there] at same
  cases same
  exact kind

theorem pidfile_none (none' : r.pidfile = none) : PidfileClear r := fun e there => by rw [none'] at there; cases there
theorem socket_none (none' : r.socket = none) : SocketClear r := fun e there => by rw [none'] at there; cases there

theorem Closable.now (closable : Closable start r h) (quiet : Quiet r h) : Rests start r := by
  have rests := closable.rests
  rw [hushed,quiet] at rests
  exact rests

theorem stands_closable (stands : Stands setup start r i h stage) : Closable start r h := by
  cases stage with
  | inspectSocket => exact bare_closable stands.1 stands.2
  | unlinkSocket => exact bare_closable stands.1 stands.2.1
  | inspectPidfile => exact bare_closable stands.1 stands.2.1
  | unlinkPidfile => exact bare_closable stands.1 stands.2.1
  | bind => exact bare_closable stands.1 stands.2.1
  | identify => exact stands.1.closable (pidfile_none stands.2.2.2)
  | listen => exact stands.1.closable (pidfile_none stands.2.2.2)
  | create => exact stands.1.toBound.closable (pidfile_none stands.2.2)
  | describe fd => exact stands.1.toBound.closable stands.2.2.clear
  | write fd rest =>
    obtain ⟨listening,_,_,written,_⟩ := stands
    exact listening.toBound.closable written.clear
  | serving =>
    obtain ⟨listening,_,_,written⟩ := stands
    exact listening.toBound.closable written.clear
  | closing ended => exact stands
  | lookSocket ended => exact stands.1
  | dropSocket ended => exact stands.1
  | lookPidfile ended => exact stands.1
  | dropPidfile ended => exact stands.1
  | release ended => exact stands.1

-- Where a step of the holder leads: it keeps the lock and what its next stage asks, or lets go of a runtime at rest.
def Follows (setup : Setup) (start r : Runtime) (i : Nat) (h : Hold) (n : Runtime × Place) : Prop :=
  match n.2 with
  | .held next stage => n.1.lockfile = r.lockfile ∧ next.lock = h.lock ∧ Stands setup start n.1 i next stage
  | _ => Rests start n.1

theorem follows_closing (closable : Closable start r h) (ended : Option Failure) :
    Follows setup start r i h (r,.held h (.closing ended)) := ⟨rfl,rfl,closable⟩

theorem Rests.cleared (rests : Rests start r) (socket : r.socket = none) (pidfile : r.pidfile = none) :
    SocketClear start ∧ PidfileClear start :=
  ⟨rests.socket.mp (socket_none socket),rests.pidfile.mp (pidfile_none pidfile)⟩

theorem Written.more (written : Written r fd done) (chunk : List UInt8) :
    Written {r with pidfile := r.pidfile.map fun e => if e.identity = fd then {e with content := e.content ++ chunk} else e} fd
      (done ++ chunk) := by
  obtain ⟨e,there,kind,own,rfl⟩ := written
  refine ⟨{e with content := e.content ++ chunk},?_,kind,own,rfl⟩
  show (r.pidfile.map _) = _
  rw [there,Option.map_some,if_pos own]

theorem Rests.unlinked (rests : Rests start r) (clear : SocketClear start) : Rests start {r with socket := none} :=
  ⟨iff_of_true (socket_none rfl) clear,rests.pidfile,fun blocked => absurd clear blocked,rests.pidfileStays⟩

theorem Rests.dropped (rests : Rests start r) (clear : PidfileClear start) : Rests start {r with pidfile := none} :=
  ⟨rests.socket,iff_of_true (pidfile_none rfl) clear,rests.socketStays,fun blocked => absurd clear blocked⟩

theorem proceed_follows (stands : Stands setup start r i h stage) (identity count : Nat) :
    Follows setup start r i h (proceed setup i identity count r h stage) := by
  have closable := stands_closable stands
  cases stage with
  | inspectSocket =>
    obtain ⟨rests,bare⟩ := stands
    simp only [proceed]
    split
    · exact ⟨rfl,rfl,rests,bare,‹_›⟩
    · rename_i e there
      split
      · exact follows_closing closable _
      · rename_i kind
        split
        · exact follows_closing closable _
        · rename_i silent
          refine ⟨rfl,rfl,rests,bare,fun other same => ?_⟩
          rw [there] at same
          cases same
          exact ⟨by simpa using kind,by simpa using silent⟩
  | unlinkSocket =>
    obtain ⟨rests,bare,clear⟩ := stands
    exact ⟨rfl,rfl,rests.unlinked (rests.socket.mp clear),bare,rfl⟩
  | inspectPidfile =>
    obtain ⟨rests,bare,free⟩ := stands
    simp only [proceed]
    split
    · exact ⟨rfl,rfl,rests,bare,free,‹_›⟩
    · rename_i e there
      split
      · exact follows_closing closable _
      · rename_i kind
        refine ⟨rfl,rfl,rests,bare,free,fun other same => ?_⟩
        rw [there] at same
        cases same
        simpa using kind
  | unlinkPidfile =>
    obtain ⟨rests,bare,free,clear⟩ := stands
    exact ⟨rfl,rfl,rests.dropped (rests.pidfile.mp clear),bare,free,rfl⟩
  | bind =>
    obtain ⟨rests,bare,free,none'⟩ := stands
    simp only [proceed,free]
    exact ⟨rfl,rfl,⟨rests.cleared free none',_,rfl,rfl,rfl⟩,bare.2.1,bare.2.2,none'⟩
  | identify =>
    obtain ⟨⟨clear,e,there,kind,own⟩,_,nameless,none'⟩ := stands
    simp only [proceed,there]
    exact ⟨rfl,rfl,⟨clear,_,rfl,kind,own⟩,own.symm,nameless,none'⟩
  | listen =>
    obtain ⟨⟨clear,e,there,kind,own⟩,named,nameless,none'⟩ := stands
    refine ⟨rfl,rfl,⟨⟨clear,e,there,kind,own⟩,named,fun identity own => ?_⟩,nameless,none'⟩
    show (r.accepting identity || decide (h.listener = some identity)) = true
    rw [decide_eq_true own,Bool.or_true]
  | create =>
    obtain ⟨listening,nameless,none'⟩ := stands
    simp only [proceed,none']
    exact ⟨rfl,rfl,⟨⟨listening.clear,listening.socket⟩,listening.named,listening.live⟩,nameless,_,rfl,rfl,rfl,rfl⟩
  | describe fd =>
    obtain ⟨listening,_,written⟩ := stands
    exact ⟨rfl,rfl,⟨⟨listening.clear,listening.socket⟩,listening.named,listening.live⟩,rfl,[],written,rfl⟩
  | write fd rest =>
    obtain ⟨listening,named,done,written,whole⟩ := stands
    simp only [proceed]
    split
    · rename_i empty
      rw [empty,List.append_nil] at whole
      exact ⟨rfl,rfl,listening,fd,named,whole ▸ written⟩
    · split
      · exact follows_closing closable _
      · refine ⟨rfl,rfl,⟨⟨listening.clear,listening.socket⟩,listening.named,listening.live⟩,named,_,written.more _,?_⟩
        rw [List.append_assoc,List.take_append_drop,whole]
  | serving => exact follows_closing closable none
  | closing ended =>
    refine ⟨rfl,rfl,⟨?_,closable.socket,closable.pidfile⟩,hush_twice _ _⟩
    show Rests start (hushed (hushed r h.listener) h.listener)
    rw [hushed,hushed,hush_twice]
    exact closable.rests
  | lookSocket ended =>
    simp only [proceed]
    split
    · rename_i own
      refine ⟨rfl,rfl,closable,stands.2,closable.socket fun absent => ?_⟩
      rw [absent] at own
      simp at own
    · exact ⟨rfl,rfl,stands⟩
  | dropSocket ended =>
    obtain ⟨_,quiet,clear⟩ := stands
    exact ⟨rfl,rfl,⟨closable.rests.unlinked clear,closable.socket,closable.pidfile⟩,quiet⟩
  | lookPidfile ended =>
    simp only [proceed]
    split
    · rename_i own
      refine ⟨rfl,rfl,closable,stands.2,closable.pidfile fun absent => ?_⟩
      rw [absent] at own
      simp at own
    · exact ⟨rfl,rfl,stands⟩
  | dropPidfile ended =>
    obtain ⟨_,quiet,clear⟩ := stands
    exact ⟨rfl,rfl,⟨closable.rests.dropped clear,closable.socket,closable.pidfile⟩,quiet⟩
  | release ended =>
    have rests := closable.now stands.2
    exact ⟨rests.socket,rests.pidfile,rests.socketStays,rests.pidfileStays⟩

theorem refused_follows (stands : Stands setup start r i h stage) (error : String) :
    Follows setup start r i h (refused setup i error r h stage) := by
  have closable := stands_closable stands
  cases stage with
  | closing ended => exact proceed_follows stands 0 0
  | release ended => exact proceed_follows stands 0 0
  | lookSocket ended => exact ⟨rfl,rfl,stands⟩
  | dropSocket ended => exact ⟨rfl,rfl,stands.1,stands.2.1⟩
  | lookPidfile ended => exact ⟨rfl,rfl,stands⟩
  | dropPidfile ended => exact ⟨rfl,rfl,stands.1,stands.2.1⟩
  | _ => exact follows_closing closable _

-- What a step does to the locks: nothing, or it gives up the daemon's own, or it takes one that is free.
inductive Locking (i : Nat) (r : Runtime) (x : Place) (n : Runtime × Place) : Prop where
  | same : n.1.locks = r.locks → n.2.lock = x.lock → Locking i r x n
  | gone : n.1.locks = unlock i r.locks → n.2.lock = none → Locking i r x n
  | taken (fd : Nat) : r.locks fd = none → x.lock = none →
      n.1.locks = lockFor i fd r.locks → n.2.lock = some fd → Locking i r x n

theorem proceed_locking (setup : Setup) (i identity count : Nat) (r : Runtime) (h : Hold) (stage : Stage) :
    Locking i r (.held h stage) (proceed setup i identity count r h stage) := by
  cases stage <;> simp only [proceed]
  case release => exact .gone rfl rfl
  case inspectSocket =>
    split
    · exact .same rfl rfl
    · split
      · exact .same rfl rfl
      · split <;> exact .same rfl rfl
  case inspectPidfile =>
    split
    · exact .same rfl rfl
    · split <;> exact .same rfl rfl
  case write =>
    split
    · exact .same rfl rfl
    · split <;> exact .same rfl rfl
  case bind => split <;> exact .same rfl rfl
  case identify => split <;> exact .same rfl rfl
  case create => split <;> exact .same rfl rfl
  case lookSocket => split <;> exact .same rfl rfl
  case lookPidfile => split <;> exact .same rfl rfl
  all_goals exact .same rfl rfl

theorem go_locking (setup : Setup) (i identity count : Nat) (r : Runtime) (x : Place) :
    Locking i r x (go setup i identity count r x) := by
  cases x with
  | idle ended =>
    simp only [go,makeDirectory]
    split
    · exact .same rfl rfl
    · split <;> exact .same rfl rfl
  | made =>
    refine .same rfl ?_
    show (inspectDirectory setup r).lock = none
    unfold inspectDirectory
    split
    · rfl
    · split <;> rfl
  | inspected directory =>
    simp only [go,secureDirectory]
    split
    · exact .same rfl rfl
    · split <;> exact .same rfl rfl
  | secured =>
    simp only [go,openLock]
    split
    · exact .same rfl rfl
    · split <;> exact .same rfl rfl
  | opened fd =>
    simp only [go,checkLock]
    split
    · exact .same rfl rfl
    · split <;> exact .same rfl rfl
  | checked fd =>
    simp only [go,flock]
    split
    · exact .same rfl rfl
    · exact .taken fd ‹_› rfl rfl rfl
  | flocked fd =>
    simp only [go,confirmLock]
    split
    · exact .gone rfl rfl
    · split
      · exact .gone rfl rfl
      · exact .same rfl rfl
  | held h stage => exact proceed_locking setup i identity count r h stage

theorem refuse_locking (setup : Setup) (i : Nat) (error : String) (r : Runtime) (x : Place) :
    Locking i r x (refuse setup i error r x) := by
  cases x with
  | flocked fd => exact .gone rfl rfl
  | held h stage =>
    cases stage with
    | closing ended => exact proceed_locking setup i 0 0 r h (.closing ended)
    | release ended => exact proceed_locking setup i 0 0 r h (.release ended)
    | _ => exact .same rfl rfl
  | _ => exact .same rfl rfl

theorem step_locking (setup : Setup) (i : Nat) (act : Act) (r : Runtime) (x : Place) : Locking i r x (step setup i act r x) := by
  cases act with
  | go identity count => exact go_locking setup i identity count r x
  | refuse error => exact refuse_locking setup i error r x
  | crash => exact .gone rfl rfl

theorem unlock_own (locks : Nat → Option Nat) (fd : Nat) : unlock i locks fd ≠ some i := by
  unfold unlock
  split
  · nofun
  · assumption

theorem unlock_other (locks : Nat → Option Nat) (fd : Nat) (other : i ≠ j) : unlock j locks fd = some i ↔ locks fd = some i := by
  unfold unlock
  split
  · rename_i own
    rw [own]
    exact ⟨nofun,fun same => absurd (Option.some.inj same).symm other⟩
  · rfl

theorem lockFor_own (locks : Nat → Option Nat) (free : locks fd = none) (file : Nat) :
    lockFor i fd locks file = some j ↔ (file = fd ∧ i = j) ∨ locks file = some j := by
  unfold lockFor
  split
  · rename_i same
    rw [same,free]
    simp
  · rename_i other
    simp [other]

theorem step_mine (keeps : mine i r x) (act : Act) : mine i (step setup i act r x).1 (step setup i act r x).2 := by
  intro fd
  cases step_locking setup i act r x with
  | same locks lock => rw [locks,lock,keeps fd]
  | gone locks lock =>
    rw [locks,lock]
    exact iff_of_false (unlock_own _ _) nofun
  | taken own free none' locks lock =>
    rw [locks,lock,lockFor_own _ free,keeps fd,none']
    simp [eq_comm]

theorem step_others (other : i ≠ j) (keeps : mine i r x) (act : Act) (y : Place) : mine i (step setup j act r y).1 x := by
  intro fd
  rw [← keeps fd]
  cases step_locking setup j act r y with
  | same locks _ => rw [locks]
  | gone locks _ => rw [locks,unlock_other _ _ other]
  | taken own free _ locks _ =>
    rw [locks,lockFor_own _ free]
    simp [other.symm]

theorem crash_rests (closable : Closable start r h) : Rests start (crash i r (.held h stage)).1 :=
  ⟨closable.rests.socket,closable.rests.pidfile,closable.rests.socketStays,closable.rests.pidfileStays⟩

theorem step_follows (stands : Stands setup start r i h stage) (act : Act) :
    Follows setup start r i h (step setup i act r (.held h stage)) := by
  cases act with
  | go identity count => exact proceed_follows stands identity count
  | refuse error => exact refused_follows stands error
  | crash => exact crash_rests (stands_closable stands)

-- The paths and what answers at them are as they were.
structure Untouched (r after : Runtime) : Prop where
  socket : after.socket = r.socket
  pidfile : after.pidfile = r.pidfile
  accepting : after.accepting = r.accepting

-- Who does not hold the lock leaves the paths alone and a lock file in its place, or comes in by the file
-- that is there.
inductive Outside (r : Runtime) (x : Place) (n : Runtime × Place) : Prop where
  | stays : n.2.Out → Untouched r n.1 →
      (∀ fd, r.lockfile.map Entry.identity = some fd → n.1.lockfile.map Entry.identity = some fd) → Outside r x n
  | enters (fd : Nat) : x = .flocked fd → r.lockfile.map Entry.identity = some fd →
      n = (r,.held ⟨fd,none,none,none⟩ .inspectSocket) → Outside r x n

theorem untouched (r : Runtime) : Untouched r r := ⟨rfl,rfl,rfl⟩

theorem go_outside (setup : Setup) (i identity count : Nat) (r : Runtime) (out : x.Out) :
    Outside r x (go setup i identity count r x) := by
  cases x with
  | idle ended =>
    simp only [go,makeDirectory]
    split
    · exact .stays trivial ⟨rfl,rfl,rfl⟩ fun _ own => own
    · split <;> exact .stays trivial (untouched r) fun _ own => own
  | made =>
    refine .stays ?_ (untouched r) fun _ own => own
    show (inspectDirectory setup r).Out
    unfold inspectDirectory
    split
    · trivial
    · split <;> trivial
  | inspected directory =>
    simp only [go,secureDirectory]
    split
    · exact .stays trivial (untouched r) fun _ own => own
    · split
      · exact .stays trivial (untouched r) fun _ own => own
      · exact .stays trivial ⟨rfl,rfl,rfl⟩ fun _ own => own
  | secured =>
    simp only [go,openLock]
    split
    · rename_i absent
      refine .stays trivial ⟨rfl,rfl,rfl⟩ fun fd own => ?_
      rw [absent] at own
      cases own
    · split <;> exact .stays trivial (untouched r) fun _ own => own
  | opened fd =>
    simp only [go,checkLock]
    split
    · exact .stays trivial (untouched r) fun _ own => own
    · rename_i e there
      split
      · exact .stays trivial (untouched r) fun _ own => own
      · refine .stays trivial ⟨rfl,rfl,rfl⟩ fun fd own => ?_
        rw [there] at own
        exact own
  | checked fd =>
    simp only [go,flock]
    split
    · exact .stays trivial (untouched r) fun _ own => own
    · exact .stays trivial ⟨rfl,rfl,rfl⟩ fun _ own => own
  | flocked fd =>
    simp only [go,confirmLock]
    split
    · exact .stays trivial ⟨rfl,rfl,rfl⟩ fun _ own => own
    · rename_i e there
      split
      · exact .stays trivial ⟨rfl,rfl,rfl⟩ fun _ own => own
      · rename_i same
        exact .enters fd rfl (by rw [there,Option.map_some,Decidable.not_not.mp same]) rfl
  | held h stage => exact out.elim

theorem step_outside (setup : Setup) (i : Nat) (act : Act) (r : Runtime) (out : x.Out) : Outside r x (step setup i act r x) := by
  cases act with
  | go identity count => exact go_outside setup i identity count r out
  | refuse error =>
    cases x with
    | flocked fd => exact .stays trivial ⟨rfl,rfl,rfl⟩ fun _ own => own
    | held h stage => exact out.elim
    | _ => exact .stays trivial (untouched r) fun _ own => own
  | crash =>
    refine .stays trivial ⟨rfl,rfl,?_⟩ fun _ own => own
    cases x with
    | held h stage => exact out.elim
    | _ => exact hush_none _

theorem rests_untouched (rests : Rests start r) (same : Untouched r after) : Rests start after := by
  obtain ⟨socket,pidfile,accepting⟩ := same
  obtain ⟨socket',pidfile',socketStays,pidfileStays⟩ := rests
  unfold SocketClear PidfileClear at *
  constructor
  · simpa only [SocketClear,socket,accepting] using socket'
  · simpa only [PidfileClear,pidfile] using pidfile'
  · rw [socket]
    exact socketStays
  · rw [pidfile]
    exact pidfileStays

theorem bound_untouched (bound : Bound start r h) (same : Untouched r after) : Bound start after h := by
  refine ⟨bound.clear,?_⟩
  rw [same.socket]
  exact bound.socket

theorem listening_untouched (listening : Listening start r h) (same : Untouched r after) : Listening start after h := by
  refine ⟨bound_untouched listening.toBound same,listening.named,?_⟩
  rw [same.accepting]
  exact listening.live

theorem written_untouched (written : Written r fd content) (same : Untouched r after) : Written after fd content := by
  unfold Written
  rw [same.pidfile]
  exact written

theorem clear_untouched (same : Untouched r after) : (SocketClear r → SocketClear after) ∧ (PidfileClear r → PidfileClear after) := by
  unfold SocketClear PidfileClear
  rw [same.socket,same.pidfile,same.accepting]
  exact ⟨id,id⟩

theorem closable_untouched (closable : Closable start r h) (same : Untouched r after) : Closable start after h := by
  refine ⟨rests_untouched closable.rests ⟨same.socket,same.pidfile,?_⟩,closable.socket,closable.pidfile⟩
  show hush h.listener after.accepting = hush h.listener r.accepting
  rw [same.accepting]

theorem stands_untouched (stands : Stands setup start r i h stage) (same : Untouched r after) : Stands setup start after i h stage := by
  have quiet : Quiet r h → Quiet after h := by
    unfold Quiet
    rw [same.accepting]
    exact id
  cases stage with
  | inspectSocket => exact ⟨rests_untouched stands.1 same,stands.2⟩
  | unlinkSocket => exact ⟨rests_untouched stands.1 same,stands.2.1,(clear_untouched same).1 stands.2.2⟩
  | inspectPidfile => exact ⟨rests_untouched stands.1 same,stands.2.1,same.socket.trans stands.2.2⟩
  | unlinkPidfile =>
    obtain ⟨rests,bare,free,clear⟩ := stands
    exact ⟨rests_untouched rests same,bare,same.socket.trans free,(clear_untouched same).2 clear⟩
  | bind =>
    obtain ⟨rests,bare,free,none'⟩ := stands
    exact ⟨rests_untouched rests same,bare,same.socket.trans free,same.pidfile.trans none'⟩
  | identify => exact ⟨bound_untouched stands.1 same,stands.2.1,stands.2.2.1,same.pidfile.trans stands.2.2.2⟩
  | listen => exact ⟨bound_untouched stands.1 same,stands.2.1,stands.2.2.1,same.pidfile.trans stands.2.2.2⟩
  | create => exact ⟨listening_untouched stands.1 same,stands.2.1,same.pidfile.trans stands.2.2⟩
  | describe fd => exact ⟨listening_untouched stands.1 same,stands.2.1,written_untouched stands.2.2 same⟩
  | write fd rest =>
    obtain ⟨listening,named,done,written,whole⟩ := stands
    exact ⟨listening_untouched listening same,named,done,written_untouched written same,whole⟩
  | serving =>
    obtain ⟨listening,fd,named,written⟩ := stands
    exact ⟨listening_untouched listening same,fd,named,written_untouched written same⟩
  | closing ended => exact closable_untouched stands same
  | dropSocket ended => exact ⟨closable_untouched stands.1 same,quiet stands.2.1,stands.2.2⟩
  | dropPidfile ended => exact ⟨closable_untouched stands.1 same,quiet stands.2.1,stands.2.2⟩
  | lookSocket ended => exact ⟨closable_untouched stands.1 same,quiet stands.2⟩
  | lookPidfile ended => exact ⟨closable_untouched stands.1 same,quiet stands.2⟩
  | release ended => exact ⟨closable_untouched stands.1 same,quiet stands.2⟩

theorem holder_inside (keeps : held setup start i r x) (act : Act) :
    (¬ (step setup i act r x).2.Out ∧ held setup start i (step setup i act r x).1 (step setup i act r x).2) ∨
    ((step setup i act r x).2.Out ∧ Rests start (step setup i act r x).1) := by
  cases x with
  | held h stage =>
    obtain ⟨locked,stands⟩ := keeps
    have follows := step_follows stands act
    generalize step setup i act r (.held h stage) = n at follows
    obtain ⟨after,place⟩ := n
    cases place with
    | held next stage =>
      obtain ⟨file,lock,stands⟩ := follows
      refine .inl ⟨id,?_,stands⟩
      rw [lock,← locked]
      exact congrArg _ file
    | _ => exact .inr ⟨trivial,follows⟩
  | _ => exact keeps.elim

-- Who comes in finds nobody there: the file it has locked is the one at the path, and so was the holder's.
theorem holder_outside (own : mine i r x) (out : x.Out) (act : Act) :
    ((step setup i act r x).2.Out ∧ (Rests start r → Rests start (step setup i act r x).1) ∧
      ∀ j y, held setup start j r y → held setup start j (step setup i act r x).1 y) ∨
    (¬ (step setup i act r x).2.Out ∧ (Rests start r → held setup start i (step setup i act r x).1 (step setup i act r x).2) ∧
      ∀ j y, j ≠ i → mine j r y → ¬ held setup start j r y) := by
  cases step_outside setup i act r out with
  | stays out' same file =>
    refine .inl ⟨out',fun rests => rests_untouched rests same,fun j y keeps => ?_⟩
    cases y with
    | held h stage => exact ⟨file _ keeps.1,stands_untouched keeps.2 same⟩
    | _ => exact keeps.elim
  | enters fd at' file stepped =>
    rw [stepped]
    refine .inr ⟨id,fun rests => ⟨file,rests,rfl,rfl,rfl⟩,fun j y other others keeps => ?_⟩
    cases y with
    | held h stage =>
      have lock := keeps.1
      rw [file] at lock
      have mine' := (own fd).mpr (by rw [at']; rfl)
      have theirs := (others fd).mpr lock.symm
      rw [mine'] at theirs
      exact other (Option.some.inj theirs).symm
    | _ => exact keeps.elim

theorem ownership (setup : Setup) (start : Runtime) :
    Shared.Rules (step setup) replaceLock Place.Out mine (Rests start) (held setup start) where
  own _ act _ _ keeps := step_mine keeps act
  others _ _ act _ _ y other keeps _ := step_others other keeps act y
  calm _ _ := ⟨fun _ _ keeps => keeps,fun rests => rests_untouched rests ⟨rfl,rfl,rfl⟩⟩
  inside _ act _ _ _ keeps _ := holder_inside keeps act
  outside _ act _ _ own out := holder_outside own out act

abbrev Daemons := Shared Runtime Place

-- Daemons start, fail at any call, close and die over a runtime directory; only while none is in may somebody
-- else put another lock file there.
abbrev Ran (setup : Setup) (w : Daemons) (events : List (Shared.Event Act (Option Entry))) (after : Daemons) : Prop :=
  Runs.Run (Shared.advance (step setup) replaceLock) (Shared.Calm Place.Out) w events after

abbrev Keeps (setup : Setup) (start : Runtime) (w : Daemons) : Prop := Shared.Valid Place.Out mine (Rests start) (held setup start) w

variable {w after : Daemons}

theorem idle_keeps (setup : Setup) (idle : ∀ i, ∃ ended, w.place i = .idle ended) (unlocked : ∀ fd, w.common.locks fd = none) :
    Keeps setup w.common w := by
  have lock : ∀ i, (w.place i).lock = none ∧ (w.place i).Out := by
    intro i
    obtain ⟨ended,own⟩ := idle i
    rw [own]
    exact ⟨rfl,trivial⟩
  refine ⟨fun i fd => ?_,.nobody (fun i => (lock i).2) ⟨.rfl,.rfl,fun _ => rfl,fun _ => rfl⟩⟩
  rw [unlocked fd,(lock i).1]
  exact iff_of_false nofun nofun

theorem ran_keeps (idle : ∀ i, ∃ ended, w.place i = .idle ended) (unlocked : ∀ fd, w.common.locks fd = none)
    (ran : Ran setup w events after) : Keeps setup w.common after :=
  Shared.run_valid (ownership setup w.common) (idle_keeps setup idle unlocked) ran

theorem keeps_paths (keeps : Keeps setup start w) : ∃ listener, Rests start (hushed w.common listener) := by
  cases keeps.single with
  | nobody _ rests => exact ⟨none,by rw [hushed,hush_none]; exact rests⟩
  | holder i inside holds _ =>
    generalize w.place i = place at inside holds
    cases place with
    | held h stage => exact ⟨h.listener,(stands_closable holds.2).rests⟩
    | _ => exact absurd trivial inside

theorem digit_byte (digit : c ∈ Digits.digits n) : c.toNat.toUInt8.toNat = c.toNat ∧ c.toNat < 128 := by
  have range : 48 ≤ c.toNat ∧ c.toNat ≤ 57 := by
    simpa [Char.isDigit,UInt32.le_iff_toNat_le] using Digits.digits_digit digit
  exact ⟨Nat.mod_eq_of_lt (by omega),by omega⟩

theorem points_digits (n : Nat) : points ((Digits.digits n).map fun c => c.toNat.toUInt8) = LiveOwner.printedNat n := by
  rw [points,List.map_map,LiveOwner.printedNat]
  refine List.map_congr_left fun c inside => ?_
  show LiveOwner.Point.char (Char.ofNat c.toNat.toUInt8.toNat) = .char c
  rw [(digit_byte inside).1,Char.ofNat_toNat]

theorem readPid_written (unicode : LiveOwner.Unicode) (real : 0 < setup.pid i ∧ setup.pid i < 2 ^ 31)
    (written : Written r fd (payload setup i)) : readPid unicode r = some (setup.pid i) := by
  obtain ⟨e,there,kind,_,text⟩ := written
  have narrow : (payload setup i).all (· < 128) = true := by
    rw [payload,List.all_append,Bool.and_eq_true,List.all_eq_true]
    refine ⟨fun b inside => ?_,rfl⟩
    obtain ⟨c,digit,rfl⟩ := List.mem_map.mp inside
    rw [decide_eq_true_iff,UInt8.lt_iff_toNat_lt,(digit_byte digit).1]
    exact (digit_byte digit).2
  have stripped : LiveOwner.strip (points (payload setup i)) = LiveOwner.printedNat (setup.pid i) := by
    have text' : points (payload setup i) = [] ++ (LiveOwner.printedNat (setup.pid i) ++ [LiveOwner.feed]) := by
      rw [← points_digits,List.nil_append]
      exact List.map_append
    rw [text',LiveOwner.strip,Words.strip_word [LiveOwner.feed] (by simp) (LiveOwner.printedNat_some _) (LiveOwner.printedNat_solid _)]
    exact List.append_nil _
  have kept : (e.kind = .regular && e.content.all (· < 128)) = true := by rw [text,narrow,kind]; rfl
  rw [readPid,there,Option.filter_some,if_pos kept,Option.bind_some,text,stripped,LiveOwner.int_digits unicode _ real.2]
  exact if_pos (by omega)

def demoSetup : Setup := ⟨501,"daemon.sock","daemon.pid",fun i => i % 1000 + 40⟩
theorem demo_real (i : Nat) : 0 < demoSetup.pid i ∧ demoSetup.pid i < 2 ^ 31 := by
  show 0 < i % 1000 + 40 ∧ i % 1000 + 40 < 2 ^ 31
  omega

def demoDaemons : Daemons := ⟨⟨none,none,none,none,fun _ => none,fun _ => false⟩,fun _ => .idle none⟩

-- One daemon comes to serve, and another that starts meanwhile is turned away.
def demoActs : List (Nat × Act) := List.replicate 16 (0,.go 5 3) ++ List.replicate 6 (1,.go 7 3)
def demoServing : Daemons := demoActs.foldl (fun w act => Shared.next (step demoSetup) replaceLock w (.party act.1 act.2)) demoDaemons

end AgentSideCar.Ownership
