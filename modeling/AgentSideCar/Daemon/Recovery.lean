import AgentSideCar.Daemon.Ownership

namespace AgentSideCar.Ownership
open Shared (Reaches reaches_now reaches_step)

variable {setup : Setup} {i : Nat} {answers : Nat → Nat × Nat} {r : Runtime} {h : Hold}

-- Every call goes well.
def calls (answers : Nat → Nat × Nat) (k : Nat) : Act := .go (answers k).1 (answers k).2

def Serves (n : Runtime × Place) : Prop := ∃ h, n.2 = .held h .serving

abbrev Comes (setup : Setup) (i : Nat) (answers : Nat → Nat × Nat) (at' : Runtime × Place) : Prop :=
  Reaches (step setup) i (calls answers) Serves at'

theorem comes_step (next : Runtime × Place) (own : step setup i (calls answers 0) r x = next) (later : Comes setup i (fun k => answers (k + 1)) next) :
    Comes setup i answers (r,x) := by
  refine reaches_step ?_
  rw [own]
  exact later

theorem comes_write (takes : ∀ k, 0 < (answers k).2) : Comes setup i answers (r,.held h (.write fd rest)) := by
  generalize long : rest.length = n
  induction n using Nat.strongRecOn generalizing answers r rest with
  | ind n ih =>
    by_cases empty : rest = []
    · refine comes_step (r,.held h .serving) ?_ (reaches_now _ ⟨h,rfl⟩)
      exact if_pos empty
    · have taken := takes 0
      have some' : 0 < rest.length := List.length_pos_of_ne_nil empty
      refine comes_step _ (Eq.trans (if_neg empty) (if_neg (by omega))) ?_
      refine ih (rest.drop (answers 0).2).length ?_ (fun k => takes (k + 1)) rfl
      rw [List.length_drop]
      omega

theorem comes_bind (takes : ∀ k, 0 < (answers k).2) (socket : r.socket = none) (pidfile : r.pidfile = none) :
    Comes setup i answers (r,.held h .bind) := by
  refine comes_step _ (by simp only [calls,step,go,proceed,socket]; rfl) ?_
  refine comes_step _ (by simp only [calls,step,go,proceed]; rfl) ?_
  refine comes_step _ rfl ?_
  refine comes_step _ (by simp only [calls,step,go,proceed,pidfile]; rfl) ?_
  refine comes_step _ rfl ?_
  exact comes_write fun k => takes _

theorem comes_pidfile (takes : ∀ k, 0 < (answers k).2) (socket : r.socket = none) (clear : PidfileClear r) :
    Comes setup i answers (r,.held h .inspectPidfile) := by
  cases there : r.pidfile with
  | none =>
    refine comes_step _ (by simp only [calls,step,go,proceed,there]; rfl) ?_
    exact comes_bind (fun k => takes _) socket there
  | some e =>
    have kind := clear e there
    refine comes_step (r,.held h .unlinkPidfile) ?_ (comes_step _ rfl (comes_bind (fun k => takes _) socket rfl))
    simp only [calls,step,go,proceed,there]
    exact if_neg (not_not.mpr kind)

theorem comes_socket (takes : ∀ k, 0 < (answers k).2) (socket : SocketClear r) (pidfile : PidfileClear r) :
    Comes setup i answers (r,.held h .inspectSocket) := by
  cases there : r.socket with
  | none =>
    refine comes_step _ (by simp only [calls,step,go,proceed,there]; rfl) ?_
    exact comes_pidfile (fun k => takes _) there pidfile
  | some e =>
    obtain ⟨kind,silent⟩ := socket e there
    refine comes_step (r,.held h .unlinkSocket) ?_ (comes_step _ rfl (comes_pidfile (fun k => takes _) rfl pidfile))
    simp only [calls,step,go,proceed,there]
    rw [if_neg (not_not.mpr kind),if_neg (by rw [silent]; exact Bool.false_ne_true)]

-- A lock file that a daemon may use, once it is there.
def Usable (setup : Setup) (e : Entry) : Prop := e.kind = .regular ∧ e.owner = setup.user ∧ e.links = 1

theorem comes_lock (takes : ∀ k, 0 < (answers k).2) (unlocked : ∀ fd, r.locks fd = none) (there : r.lockfile = some e)
    (usable : Usable setup e) (socket : SocketClear r) (pidfile : PidfileClear r) : Comes setup i answers (r,.opened e.identity) := by
  obtain ⟨kind,owner,links⟩ := usable
  have checked : step setup i (calls answers 0) r (.opened e.identity) =
      ({r with lockfile := some {e with mode := 0o600}},.checked e.identity) := by
    simp only [calls,step,go,checkLock,there]
    exact if_neg (by simp [kind,owner,links])
  refine comes_step _ checked ?_
  refine comes_step _ (by simp only [calls,step,go,flock,unlocked]; rfl) ?_
  exact comes_step _ (if_neg (fun apart => apart rfl : ¬ e.identity ≠ e.identity)) (comes_socket (fun k => takes _) socket pidfile)

theorem comes_open (takes : ∀ k, 0 < (answers k).2) (unlocked : ∀ fd, r.locks fd = none)
    (usable : ∀ e, r.lockfile = some e → Usable setup e) (socket : SocketClear r) (pidfile : PidfileClear r) :
    Comes setup i answers (r,.secured) := by
  cases there : r.lockfile with
  | none =>
    refine comes_step _ (by simp only [calls,step,go,openLock,there]; rfl) ?_
    exact comes_lock (e := entry setup (answers 0).1 .regular 0o600) (fun k => takes _) unlocked rfl ⟨rfl,rfl,rfl⟩ socket pidfile
  | some e =>
    have own := usable e there
    refine comes_step (r,.opened e.identity) ?_ (comes_lock (fun k => takes _) unlocked there own socket pidfile)
    simp only [calls,step,go,openLock,there]
    exact if_neg (by rw [own.1]; decide)

theorem comes_start (takes : ∀ k, 0 < (answers k).2) (unlocked : ∀ fd, r.locks fd = none)
    (directory : ∀ d, r.directory = some d → d.kind = .directory ∧ d.owner = setup.user)
    (usable : ∀ e, r.lockfile = some e → Usable setup e) (socket : SocketClear r) (pidfile : PidfileClear r) :
    Comes setup i answers (r,.idle ended) := by
  have secure : ∀ (answers : Nat → Nat × Nat) (d : Entry) (r : Runtime), (∀ k, 0 < (answers k).2) → r.directory = some d →
      d.kind = .directory → d.owner = setup.user → (∀ fd, r.locks fd = none) → (∀ e, r.lockfile = some e → Usable setup e) →
      SocketClear r → PidfileClear r → Comes setup i answers (r,.made) := by
    intro answers d r takes there kind owner unlocked usable socket pidfile
    refine comes_step (r,.inspected d.identity) ?_ ?_
    · simp only [calls,step,go,inspectDirectory,there]
      rw [if_neg (by simp [kind,owner])]
    · refine comes_step ({r with directory := some {d with mode := 0o700}},.secured) ?_ ?_
      · simp only [calls,step,go,secureDirectory,there]
        rw [if_neg (by simp [kind,owner])]
      · exact comes_open (fun k => takes _) unlocked usable socket pidfile
  cases there : r.directory with
  | none =>
    refine comes_step _ (by simp only [calls,step,go,makeDirectory,there]; rfl) ?_
    exact secure _ _ _ (fun k => takes _) rfl rfl rfl unlocked usable socket pidfile
  | some d =>
    obtain ⟨kind,owner⟩ := directory d there
    refine comes_step (r,.made) ?_ (secure _ d r (fun k => takes _) there kind owner unlocked usable socket pidfile)
    simp only [calls,step,go,makeDirectory,there]
    rw [if_pos (.inl kind)]

-- A daemon that serves and is told to stop takes its two paths away and gives up the lock; the lock file stays.
structure Closed (i : Nat) (r : Runtime) (n : Runtime × Place) : Prop where
  ended : n.2 = .idle none
  socket : n.1.socket = none
  pidfile : n.1.pidfile = none
  unlocked : ∀ fd, n.1.locks fd ≠ some i
  lockfile : n.1.lockfile = r.lockfile

theorem serving_closes (stands : Stands setup start r i h .serving) (answers : Nat → Nat × Nat) :
    Reaches (step setup) i (calls answers) (Closed i r) (r,.held h .serving) := by
  obtain ⟨listening,fd,named,written⟩ := stands
  obtain ⟨e,there,kind,own⟩ := listening.socket
  obtain ⟨file,there',plain,same,_⟩ := written
  refine reaches_step (reaches_step ?_)
  refine reaches_step (reaches_step (reaches_step (reaches_step (reaches_step ?_))))
  refine reaches_now _ ?_
  have socket : r.socket.any (fun e => e.kind = .socket && h.socketIdentity = some e.identity) = true := by
    rw [there,listening.named,own,Option.any_some,kind]
    simp
  have pidfile : r.pidfile.any (fun e => e.kind = .regular && h.pidfileIdentity = some e.identity) = true := by
    rw [there',named,Option.any_some,plain,same]
    simp
  simp only [calls,step,go,proceed,socket,if_true,pidfile]
  exact ⟨rfl,rfl,rfl,fun fd => unlock_own _ _,rfl⟩

-- In every state that daemons come to, whatever they met with: one that serves and is told to stop leaves both
-- paths free and its lock open; and where none is left, and nothing foreign was in the way before, the next one to
-- start comes to serve, whatever the others left behind.
theorem daemon_recovers {w after : Daemons} (idle : ∀ i, ∃ ended, w.place i = .idle ended) (unlocked : ∀ fd, w.common.locks fd = none)
    (ran : Ran setup w events after) (answers : Nat → Nat × Nat) (takes : ∀ k, 0 < (answers k).2) (i : Nat) :
    (∀ h, after.place i = .held h .serving → ∃ n closed, Ran setup after ((List.range n).map fun k => .party i (calls answers k)) closed ∧
      Closed i after.common (closed.common,closed.place i)) ∧
    (SocketClear w.common → PidfileClear w.common → (∀ j, ∃ ended, after.place j = .idle ended) →
      (∀ d, after.common.directory = some d → d.kind = .directory ∧ d.owner = setup.user) →
      (∀ e, after.common.lockfile = some e → Usable setup e) →
      ∃ n served h, Ran setup after ((List.range n).map fun k => .party i (calls answers k)) served ∧ served.place i = .held h .serving) := by
  have keeps := ran_keeps idle unlocked ran
  constructor
  · intro h serves
    have inside : ¬ (after.place i).Out := by rw [serves]; exact id
    have holds := (keeps.single.only inside).1
    rw [serves] at holds
    have reaches := serving_closes holds.2 answers
    rw [← serves] at reaches
    exact Shared.reaches_run reaches
  · intro socket pidfile stopped directory usable
    have out : ∀ j, (after.place j).Out ∧ (after.place j).lock = none := by
      intro j
      obtain ⟨ended,own⟩ := stopped j
      rw [own]
      exact ⟨trivial,rfl⟩
    have rests := keeps.single.rest fun j => (out j).1
    have free : ∀ fd, after.common.locks fd = none := by
      intro fd
      by_contra locked
      obtain ⟨j,own⟩ := Option.ne_none_iff_exists'.mp locked
      have lock := (keeps.mine j fd).mp own
      rw [(out j).2] at lock
      cases lock
    obtain ⟨ended,own⟩ := stopped i
    have comes : Comes setup i answers (after.common,after.place i) := by
      rw [own]
      exact comes_start takes free directory usable (rests.socket.mpr socket) (rests.pidfile.mpr pidfile)
    obtain ⟨n,served,ran',h,place⟩ := Shared.reaches_run comes
    exact ⟨n,served,h,ran',place⟩

def demoRun (acts : List (Nat × Act)) : Daemons :=
  acts.foldl (fun w act => Shared.next (step demoSetup) replaceLock w (.party act.1 act.2)) demoDaemons

-- A daemon dies while it writes its pidfile.
def demoCrash : List (Nat × Act) := List.replicate 15 (0,.go 5 1) ++ [(0,.crash)]

theorem demo_recovers : ∃ n served h, Ran demoSetup (demoRun demoCrash) ((List.range n).map fun k => .party 1 (calls (fun _ => (6,2)) k)) served ∧
    served.place 1 = .held h .serving := by
  have stopped : ∀ j, ∃ ended, (demoRun demoCrash).place j = .idle ended := by
    intro j
    by_cases same : j = 0
    · subst same
      exact ⟨none,rfl⟩
    · refine ⟨none,?_⟩
      simp [demoRun,demoCrash,Shared.next,Shared.move,demoDaemons,same]
  refine (daemon_recovers (fun _ => ⟨none,rfl⟩) (fun _ => rfl) (Shared.parties_run demoCrash demoDaemons) (fun _ => (6,2))
    (fun _ => by decide) 1).2 nofun nofun stopped ?_ ?_
  · rintro d ⟨⟩
    exact ⟨rfl,rfl⟩
  · rintro e ⟨⟩
    exact ⟨rfl,rfl,rfl⟩

end AgentSideCar.Ownership
