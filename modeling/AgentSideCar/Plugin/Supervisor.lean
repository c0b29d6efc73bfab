import AgentSideCar.Library.Runs
import Mathlib.Algebra.Group.Nat.Defs
import Mathlib.Data.List.Perm.Basic

namespace AgentSideCar.DaemonSupervisor
open Runs
variable {ι : Type}

inductive SupervisorState where | probe | adopted | defer | reprobe | hosting | hosted | backoff | failed
  deriving DecidableEq
inductive SupervisorPolicy where | adoptOrHost | adoptOnly | off
  deriving DecidableEq

structure Options where
  policy : SupervisorPolicy
  backoffLimit : Nat := 5
  backoffBaseMs : Nat := 1000
  backoffCapMs : Nat := 30000
  probeIntervalMs : Nat := 5000
  adoptedRepingMs : Nat := 5000
  adoptedFailureLimit : Nat := 3
  hostReadyTimeoutMs : Nat := 45000
  hostReadyPingIntervalMs : Nat := 500

-- What a timer does when it fires; the readiness timers carry the epoch they were set in.
inductive Due where
  | adoptedPing
  | deferProbe
  | readyTimeout (epoch : Nat)
  | readyPoll (epoch : Nat)
  | determination
  deriving DecidableEq
structure Timer where
  due : Due
  delay : Nat
  deriving DecidableEq

-- What a suspended call waits for, and the epoch it was started in.
inductive Await where | probePing | detection | adoptedPing | deferPing | readyPing
  deriving DecidableEq
structure Pending where
  await : Await
  epoch : Nat
  deriving DecidableEq

-- A process it spawned: whether it has exited, whether terminate was called, the epoch of its
-- exit watcher until that has run, and whether stop() had been called when it was spawned.
structure DaemonProcess where
  exited : Bool
  told : Bool
  watcher : Option Nat
  late : Bool
  deriving DecidableEq

-- The instance's fields, then the world it acts on: the calls that have not gone on yet and
-- the processes in the order they were spawned.
structure Supervisor (ι : Type) where
  state : SupervisorState := .probe
  lastPing : Option ι := none
  timers : List Timer := []
  proc : Option Nat := none
  epoch : Nat := 0
  started : Bool := false
  stopped : Bool := false
  hostFailures : Nat := 0
  pingFailures : Nat := 0
  pending : List Pending := []
  processes : List DaemonProcess := []

def schedule (delay : Nat) (due : Due) (s : Supervisor ι) : Supervisor ι := {s with timers := s.timers ++ [⟨due,delay⟩]}
def clearAllTimers (s : Supervisor ι) : Supervisor ι := {s with timers := []}
def request (await : Await) (epoch : Nat) (s : Supervisor ι) : Supervisor ι := {s with pending := s.pending ++ [⟨await,epoch⟩]}
def invalidated (epoch : Nat) (s : Supervisor ι) : Bool := s.stopped || decide (s.epoch ≠ epoch)

def terminate (s : Supervisor ι) (p : Nat) : Supervisor ι :=
  {s with processes := s.processes.modify p fun q => {q with told := true}}

def disposeProc (s : Supervisor ι) : Supervisor ι :=
  match s.proc with
  | none => s
  | some p => terminate {s with proc := none} p

def stop (s : Supervisor ι) : Supervisor ι :=
  if s.stopped then s else disposeProc (clearAllTimers {s with stopped := true,epoch := s.epoch + 1})

-- What the listeners make of being told a state: calls of stop, and of retry, whose own
-- transition they hear in turn.
inductive Call where
  | stop
  | retry (during : List Call)

def setState (hear : Supervisor ι → Supervisor ι) (next : SupervisorState) (s : Supervisor ι) : Supervisor ι :=
  if s.state = next then s else hear {s with state := next}

-- runDetermination, up to its ping.
def runDetermination (hear : Supervisor ι → Supervisor ι) (entry : SupervisorState) (s : Supervisor ι) : Supervisor ι :=
  request .probePing (s.epoch + 1) (setState hear entry (clearAllTimers {s with epoch := s.epoch + 1}))

def retry (hear : Supervisor ι → Supervisor ι) (s : Supervisor ι) : Supervisor ι :=
  if s.stopped then s
  else if s.state ≠ .failed then s
  else runDetermination hear .probe {s with hostFailures := 0,pingFailures := 0}

mutual
def heard : List Call → Supervisor ι → Supervisor ι
  | [],s => s
  | call :: rest,s => heard rest (call.apply s)
def Call.apply : Call → Supervisor ι → Supervisor ι
  | .stop,s => DaemonSupervisor.stop s
  | .retry during,s => DaemonSupervisor.retry (heard during) s
end

-- The listeners' calls as each state is entered during one step.
abbrev Listeners := SupervisorState → List Call

section Steps
variable (o : Options) (on : Listeners)

def start (s : Supervisor ι) : Supervisor ι :=
  if s.started || s.stopped then s
  else if o.policy = .off then setState (heard (on .defer)) .defer {s with started := true}
  else runDetermination (heard (on .probe)) .probe {s with started := true}

def scheduleAdoptedPing (s : Supervisor ι) : Supervisor ι := schedule o.adoptedRepingMs .adoptedPing s
def scheduleDeferProbe (s : Supervisor ι) : Supervisor ι := schedule o.probeIntervalMs .deferProbe s
def scheduleReadyPoll (epoch : Nat) (s : Supervisor ι) : Supervisor ι :=
  schedule o.hostReadyPingIntervalMs (.readyPoll epoch) s

def enterAdopted (info : ι) (s : Supervisor ι) : Supervisor ι :=
  scheduleAdoptedPing o (setState (heard (on .adopted)) .adopted
    {clearAllTimers s with lastPing := some info,pingFailures := 0,hostFailures := 0})

def enterDefer (s : Supervisor ι) : Supervisor ι :=
  scheduleDeferProbe o (setState (heard (on .defer)) .defer (clearAllTimers s))

def enterBackoff (s : Supervisor ι) : Supervisor ι :=
  let s := setState (heard (on .backoff)) .backoff
    {clearAllTimers s with epoch := s.epoch + 1,hostFailures := s.hostFailures + 1}
  if o.backoffLimit ≤ s.hostFailures then setState (heard (on .failed)) .failed s
  else schedule (min (o.backoffBaseMs * 2 ^ (s.hostFailures - 1)) o.backoffCapMs) .determination s

-- `spawns` tells whether spawnDaemon returns a process or throws.
def enterHosting (spawns : Bool) (s : Supervisor ι) : Supervisor ι :=
  let epoch := s.epoch + 1
  let s := setState (heard (on .hosting)) .hosting (clearAllTimers {s with epoch := epoch})
  if !spawns then enterBackoff o on s
  else scheduleReadyPoll o epoch (schedule o.hostReadyTimeoutMs (.readyTimeout epoch)
    {s with proc := some s.processes.length,processes := s.processes ++ [⟨false,false,some epoch,s.stopped⟩]})

def enterHosted (info : ι) (s : Supervisor ι) : Supervisor ι :=
  setState (heard (on .hosted)) .hosted {clearAllTimers s with lastPing := some info,hostFailures := 0,pingFailures := 0}

-- A ping that fails, or throws, answers none.
def pinged (await : Await) (epoch : Nat) (info : Option ι) (s : Supervisor ι) : Supervisor ι :=
  if invalidated epoch s then s
  else match await,info with
    | .probePing,some info => enterAdopted o on info s
    | .probePing,none => request .detection epoch s
    | .detection,_ => s
    | .adoptedPing,some info =>
      if s.state ≠ .adopted then s else scheduleAdoptedPing o {s with lastPing := some info,pingFailures := 0}
    | .adoptedPing,none =>
      if s.state ≠ .adopted then s
      else if o.adoptedFailureLimit ≤ s.pingFailures + 1 then
        runDetermination (heard (on .reprobe)) .reprobe {s with pingFailures := 0}
      else scheduleAdoptedPing o {s with pingFailures := s.pingFailures + 1}
    | .deferPing,some info => if s.state ≠ .defer then s else enterAdopted o on info s
    | .deferPing,none => if s.state ≠ .defer then s else scheduleDeferProbe o s
    | .readyPing,some info => if s.state ≠ .hosting then s else enterHosted on info s
    | .readyPing,none => if s.state ≠ .hosting then s else scheduleReadyPoll o epoch s

-- A detection that throws finds no LaunchAgent.
def detected (epoch : Nat) (managed spawns : Bool) (s : Supervisor ι) : Supervisor ι :=
  if invalidated epoch s then s
  else if managed then enterDefer o on s
  else if o.policy = .adoptOnly then enterDefer o on s
  else enterHosting o on spawns s

def fired (due : Due) (s : Supervisor ι) : Supervisor ι :=
  if s.stopped then s
  else match due with
    | .adoptedPing => request .adoptedPing s.epoch s
    | .deferProbe => request .deferPing s.epoch s
    | .readyTimeout epoch => if invalidated epoch s then s else enterBackoff o on (disposeProc s)
    | .readyPoll epoch => if invalidated epoch s then s else request .readyPing epoch s
    | .determination => runDetermination (heard (on .probe)) .probe s

def watched (epoch : Nat) (s : Supervisor ι) : Supervisor ι :=
  if invalidated epoch s then s else enterBackoff o on {s with proc := none}

end Steps

inductive Cause (ι : Type) where
  | start
  | stop
  | retry
  | pinged (slot : Nat) (info : Option ι)
  | detected (slot : Nat) (managed spawns : Bool)
  | fired (slot : Nat)
  | exits (p : Nat)
  | watched (p : Nat)
structure Event (ι : Type) where
  cause : Cause ι
  listeners : Listeners

def leave (slot : Nat) (s : Supervisor ι) : Supervisor ι := {s with pending := s.pending.eraseIdx slot}
def unschedule (slot : Nat) (s : Supervisor ι) : Supervisor ι := {s with timers := s.timers.eraseIdx slot}
def exits (p : Nat) (s : Supervisor ι) : Supervisor ι :=
  {s with processes := s.processes.modify p fun q => {q with exited := true}}
def unwatch (p : Nat) (s : Supervisor ι) : Supervisor ι :=
  {s with processes := s.processes.modify p fun q => {q with watcher := none}}

-- None where the cause cannot be: nothing suspended, scheduled or exited in that place.
def advance (o : Options) (s : Supervisor ι) (event : Event ι) : Option (Supervisor ι) :=
  match event.cause with
  | .start => some (start o event.listeners s)
  | .stop => some (stop s)
  | .retry => some (retry (heard (event.listeners .probe)) s)
  | .pinged slot info => (s.pending[slot]?).bind fun p =>
      if p.await = .detection then none else some (pinged o event.listeners p.await p.epoch info (leave slot s))
  | .detected slot managed spawns => (s.pending[slot]?).bind fun p =>
      if p.await = .detection then some (detected o event.listeners p.epoch managed spawns (leave slot s)) else none
  | .fired slot => (s.timers[slot]?).map fun timer => fired o event.listeners timer.due (unschedule slot s)
  | .exits p => (s.processes[p]?).bind fun q => if q.exited then none else some (exits p s)
  | .watched p => (s.processes[p]?).bind fun q =>
      if q.exited then q.watcher.map fun epoch => watched o event.listeners epoch (unwatch p s) else none

def alive (q : DaemonProcess) : Prop := q.exited = false ∧ q.told = false

-- What has to hold in every state a supervisor reaches.
structure Sound (o : Options) (s : Supervisor ι) : Prop where
  proc_hosting : s.proc.isSome = true → s.state = .hosting ∨ s.state = .hosted
  single : ∀ (i j : Nat) p q, s.processes[i]? = some p → s.processes[j]? = some q → alive p → alive q → i = j
  torn : s.stopped = true → s.timers = [] ∧ ∀ q ∈ s.processes, ¬ alive q
  on_time : ∀ q ∈ s.processes, q.late = false
  driven : s.started = true → s.stopped = false → s.state ≠ .hosted → s.state ≠ .failed →
    ¬ (o.policy = .off ∧ s.state = .defer) → s.timers ≠ [] ∨ ∃ p ∈ s.pending, p.epoch = s.epoch

def stops : List Call → Bool
  | [] => false
  | .stop :: _ => true
  | .retry _ :: rest => stops rest

-- No listener stops the supervisor as it enters a state that it goes on from: one where it
-- then spawns or sets a timer.
structure Orderly (o : Options) (s : Supervisor ι) (event : Event ι) : Prop where
  adopted : stops (event.listeners .adopted) = false
  defer : o.policy ≠ .off → stops (event.listeners .defer) = false
  hosting : stops (event.listeners .hosting) = false
  backoff : s.hostFailures + 1 < o.backoffLimit → stops (event.listeners .backoff) = false

def dues (s : Supervisor ι) : List Due := s.timers.map (·.due)
-- What the calls of the present epoch wait for; those of earlier ones will give up.
def awaits (s : Supervisor ι) : List Await := (s.pending.filter fun p => p.epoch = s.epoch).map (·.await)

-- The one thread of control of each state.
def Threaded (o : Options) (s : Supervisor ι) : Prop :=
  match s.state with
  | .probe => dues s = [] ∧ (awaits s = [.probePing] ∨ awaits s = [.detection])
  | .reprobe => dues s = [] ∧ (awaits s = [.probePing] ∨ awaits s = [.detection])
  | .adopted => dues s = [.adoptedPing] ∧ awaits s = [] ∨ dues s = [] ∧ awaits s = [.adoptedPing]
  | .defer => if o.policy = .off then dues s = [] ∧ awaits s = []
      else dues s = [.deferProbe] ∧ awaits s = [] ∨ dues s = [] ∧ awaits s = [.deferPing]
  | .hosting => dues s = [.readyTimeout s.epoch,.readyPoll s.epoch] ∧ awaits s = [] ∨
      dues s = [.readyTimeout s.epoch] ∧ awaits s = [.readyPing]
  | .hosted => dues s = [] ∧ awaits s = []
  | .backoff => dues s = [.determination] ∧ awaits s = []
  | .failed => dues s = [] ∧ awaits s = []

-- What every transition keeps: whose processes are alive, and which calls and watchers count.
structure Owned (s : Supervisor ι) : Prop where
  pending : ∀ p ∈ s.pending, p.epoch ≤ s.epoch
  watchers : ∀ (i : Nat) q epoch, s.processes[i]? = some q → q.watcher = some epoch →
    epoch ≤ s.epoch ∧ (epoch = s.epoch → s.proc = some i)
  living : ∀ (i : Nat) q, s.processes[i]? = some q → alive q → s.proc = some i
  on_time : ∀ q ∈ s.processes, q.late = false

structure Running (o : Options) (s : Supervisor ι) : Prop where
  owned : Owned s
  started : s.started = true
  stopped : s.stopped = false
  proc_hosting : s.proc.isSome = true → s.state = .hosting ∨ s.state = .hosted
  standing : o.policy = .off → s.state = .defer
  threaded : Threaded o s

structure Torn (s : Supervisor ι) : Prop where
  stopped : s.stopped = true
  timers : s.timers = []
  proc : s.proc = none
  dead : ∀ (i : Nat) q, s.processes[i]? = some q → ¬ alive q
  on_time : ∀ q ∈ s.processes, q.late = false

def Tidy (o : Options) (s : Supervisor ι) : Prop := s = {} ∨ Running o s ∨ Torn s

variable {o : Options} {s : Supervisor ι}

theorem tidy_sound (tidy : Tidy o s) : Sound o s := by
  rcases tidy with rfl | running | torn
  · exact ⟨by simp,by simp,by simp,by simp,by simp⟩
  · obtain ⟨owned,started,stopped,hosting,_,threaded⟩ := running
    refine ⟨hosting,fun i j p q atp atq alivep aliveq => ?_,fun torn => ?_,owned.on_time,fun _ _ hosted failed off => ?_⟩
    · have here := owned.living i p atp alivep
      rw [owned.living j q atq aliveq] at here
      exact (Option.some.inj here).symm
    · rw [stopped] at torn
      cases torn
    · have waits : awaits s ≠ [] → ∃ p ∈ s.pending, p.epoch = s.epoch := by
        intro some'
        obtain ⟨a,inside⟩ := List.exists_mem_of_ne_nil _ some'
        obtain ⟨p,held,_⟩ := List.mem_map.mp inside
        rw [List.mem_filter,decide_eq_true_eq] at held
        exact ⟨p,held.1,held.2⟩
      have times : dues s ≠ [] → s.timers ≠ [] := fun some' none' => some' (by rw [dues,none']; rfl)
      unfold Threaded at threaded
      split at threaded
      · rcases threaded.2 with here | here <;> exact .inr (waits (by simp [here]))
      · rcases threaded.2 with here | here <;> exact .inr (waits (by simp [here]))
      · rcases threaded with here | here
        · exact .inl (times (by simp [here.1]))
        · exact .inr (waits (by simp [here.2]))
      · rename_i state
        rw [if_neg fun policy => off ⟨policy,state⟩] at threaded
        rcases threaded with here | here
        · exact .inl (times (by simp [here.1]))
        · exact .inr (waits (by simp [here.2]))
      · rcases threaded with here | here <;> exact .inl (times (by simp [here.1]))
      · contradiction
      · exact .inl (times (by simp [threaded.1]))
      · contradiction
  · exact ⟨by simp [torn.proc],fun i j p q atp _ alivep _ => absurd alivep (torn.dead i p atp),
      fun _ => ⟨torn.timers,fun q inside => by
        obtain ⟨i,at'⟩ := List.mem_iff_getElem?.mp inside
        exact torn.dead i q at'⟩,torn.on_time,fun _ running => by rw [torn.stopped] at running; cases running⟩

-- No process of its own is left, and all that still waits belongs to this epoch or an earlier one.
structure Left (s : Supervisor ι) : Prop where
  pending : ∀ p ∈ s.pending, p.epoch ≤ s.epoch
  watchers : ∀ q ∈ s.processes, ∀ epoch, q.watcher = some epoch → epoch ≤ s.epoch
  dead : ∀ (i : Nat) q, s.processes[i]? = some q → ¬ alive q
  on_time : ∀ q ∈ s.processes, q.late = false

theorem Owned.left (owned : Owned s) (free : s.proc = none) : Left s := by
  refine ⟨owned.pending,fun q inside epoch watching => ?_,fun i q at' living => ?_,owned.on_time⟩
  · obtain ⟨i,at'⟩ := List.mem_iff_getElem?.mp inside
    exact (owned.watchers i q epoch at' watching).1
  · have := owned.living i q at' living
    rw [free] at this
    cases this

theorem Left.same (left : Left s) {t : Supervisor ι} (pending : t.pending = s.pending) (processes : t.processes = s.processes)
    (epoch : s.epoch ≤ t.epoch) : Left t := by
  refine ⟨fun p inside => ?_,fun q inside e watching => ?_,?_,?_⟩
  · rw [pending] at inside
    exact Nat.le_trans (left.pending p inside) epoch
  · rw [processes] at inside
    exact Nat.le_trans (left.watchers q inside e watching) epoch
  · rw [processes]
    exact left.dead
  · rw [processes]
    exact left.on_time

theorem Left.owned (left : Left s) {t : Supervisor ι} (epoch : t.epoch = s.epoch + 1) (processes : t.processes = s.processes)
    (pending : ∀ p ∈ t.pending, p ∈ s.pending ∨ p.epoch = t.epoch) : Owned t := by
  refine ⟨fun p inside => ?_,fun i q e at' watching => ?_,fun i q at' living => ?_,?_⟩
  · rcases pending p inside with old | new
    · have := left.pending p old
      omega
    · omega
  · rw [processes] at at'
    have := left.watchers q (List.mem_of_getElem? at') e watching
    exact ⟨by omega,fun now => by omega⟩
  · rw [processes] at at'
    exact absurd living (left.dead i q at')
  · rw [processes]
    exact left.on_time

theorem Left.awaits (left : Left s) {t : Supervisor ι} (epoch : t.epoch = s.epoch + 1) (pending : t.pending = s.pending ++ fresh) :
    awaits t = (fresh.filter fun p => p.epoch = t.epoch).map (·.await) := by
  have stale : (s.pending.filter fun p => p.epoch = t.epoch) = [] := by
    refine List.filter_eq_nil_iff.mpr fun p inside => ?_
    have := left.pending p inside
    simp only [decide_eq_true_eq]
    omega
  rw [DaemonSupervisor.awaits,pending,List.filter_append,stale,List.nil_append]

theorem Left.idle (left : Left s) {t : Supervisor ι} (epoch : t.epoch = s.epoch + 1) (pending : t.pending = s.pending) :
    DaemonSupervisor.awaits t = [] := by
  have none' := left.awaits (t := t) epoch (pending.trans (List.append_nil _).symm)
  exact none'

theorem disposeProc_dead (living : ∀ (i : Nat) q, s.processes[i]? = some q → alive q → s.proc = some i) :
    ∀ (i : Nat) q, (disposeProc s).processes[i]? = some q → ¬ alive q := by
  intro i q at' lives
  unfold disposeProc at at'
  cases held : s.proc with
  | none =>
    rw [held] at at'
    have := living i q at' lives
    rw [held] at this
    cases this
  | some p =>
    simp only [held,terminate,List.getElem?_modify] at at'
    split at at'
    · obtain ⟨old,_,rfl⟩ := Option.map_eq_some_iff.mp at'
      cases lives.2
    · rename_i other
      have := living i q (by simpa using at') lives
      rw [held] at this
      exact other (Option.some.inj this)

theorem disposeProc_mem (s : Supervisor ι) (inside : q ∈ (disposeProc s).processes) :
    ∃ old ∈ s.processes, q.late = old.late ∧ q.watcher = old.watcher := by
  unfold disposeProc at inside
  cases held : s.proc with
  | none =>
    rw [held] at inside
    exact ⟨q,inside,rfl,rfl⟩
  | some p =>
    simp only [held,terminate] at inside
    obtain ⟨i,at'⟩ := List.mem_iff_getElem?.mp inside
    rw [List.getElem?_modify] at at'
    obtain ⟨old,found,made⟩ := Option.map_eq_some_iff.mp at'
    refine ⟨old,List.mem_of_getElem? found,?_⟩
    rw [← made]
    split <;> exact ⟨rfl,rfl⟩

theorem disposeProc_fields (s : Supervisor ι) : (disposeProc s).proc = none ∧ (disposeProc s).timers = s.timers ∧
    (disposeProc s).pending = s.pending ∧ (disposeProc s).epoch = s.epoch ∧ (disposeProc s).stopped = s.stopped ∧
    (disposeProc s).started = s.started ∧ (disposeProc s).state = s.state ∧ (disposeProc s).hostFailures = s.hostFailures := by
  unfold disposeProc
  cases held : s.proc with
  | none => exact ⟨held,rfl,rfl,rfl,rfl,rfl,rfl,rfl⟩
  | some p => exact ⟨rfl,rfl,rfl,rfl,rfl,rfl,rfl,rfl⟩

theorem disposeProc_left (owned : Owned s) : Left (disposeProc s) := by
  obtain ⟨_,_,pending,epoch,_⟩ := disposeProc_fields s
  refine ⟨?_,fun q inside e watching => ?_,disposeProc_dead owned.living,fun q inside => ?_⟩
  · rw [pending,epoch]
    exact owned.pending
  · obtain ⟨old,held,_,same⟩ := disposeProc_mem s inside
    obtain ⟨i,at'⟩ := List.mem_iff_getElem?.mp held
    rw [epoch]
    exact (owned.watchers i old e at' (same ▸ watching)).1
  · obtain ⟨old,held,same,_⟩ := disposeProc_mem s inside
    rw [same]
    exact owned.on_time old held

theorem stop_torn (owned : Owned s) (running : s.stopped = false) : Torn (stop s) := by
  rw [stop,if_neg (by simp [running])]
  obtain ⟨proc,timers,_,_,stopped,_⟩ := disposeProc_fields (clearAllTimers {s with stopped := true,epoch := s.epoch + 1})
  refine ⟨stopped,timers,proc,disposeProc_dead owned.living,fun q inside => ?_⟩
  obtain ⟨old,held,same,_⟩ := disposeProc_mem _ inside
  rw [same]
  exact owned.on_time old held

theorem call_stopped (call : Call) (stopped : s.stopped = true) : call.apply s = s := by
  cases call with
  | stop => rw [Call.apply,DaemonSupervisor.stop,if_pos stopped]
  | retry during => rw [Call.apply,DaemonSupervisor.retry,if_pos stopped]

theorem heard_stopped (calls : List Call) (stopped : s.stopped = true) : heard calls s = s := by
  induction calls with
  | nil => rfl
  | cons call rest ih => rw [heard,call_stopped call stopped,ih]

theorem heard_steady (calls : List Call) (running : s.stopped = false) (apart : s.state ≠ .failed) :
    heard calls s = if stops calls then stop s else s := by
  induction calls with
  | nil => rfl
  | cons call rest ih =>
    cases call with
    | stop =>
      rw [heard,Call.apply,stops,if_pos rfl,heard_stopped]
      rw [DaemonSupervisor.stop,if_neg (by simp [running])]
      exact (disposeProc_fields _).2.2.2.2.1
    | retry during => rw [heard,Call.apply,DaemonSupervisor.retry,if_neg (by simp [running]),if_pos apart,stops,ih]

theorem setState_steady (next : SupervisorState) (s : Supervisor ι) (calls : List Call) (running : s.stopped = false)
    (apart : next ≠ .failed) :
    setState (heard calls) next s = {s with state := next} ∨
      stops calls = true ∧ setState (heard calls) next s = stop {s with state := next} := by
  unfold setState
  split
  · rename_i same
    left
    rw [← same]
  · rw [heard_steady (s := {s with state := next}) calls running apart]
    cases stopping : stops calls with
    | false => exact .inl rfl
    | true => exact .inr ⟨rfl,rfl⟩

theorem torn_request (torn : Torn s) (await : Await) (epoch : Nat) : Torn (request await epoch s) :=
  ⟨torn.stopped,torn.timers,torn.proc,torn.dead,torn.on_time⟩

theorem determination_tidy (left : Left s) (free : s.proc = none) (started : s.started = true) (running : s.stopped = false)
    (managed : o.policy ≠ .off) (probing : entry = .probe ∨ entry = .reprobe) (during : List Call) :
    (Running o (runDetermination (heard during) entry s) ∧ (runDetermination (heard during) entry s).state = entry) ∨
      Torn (runDetermination (heard during) entry s) := by
  unfold runDetermination
  have apart : entry ≠ .failed := by rcases probing with rfl | rfl <;> simp
  rcases setState_steady entry (clearAllTimers {s with epoch := s.epoch + 1}) during running apart with
    entered | ⟨_,entered⟩ <;> rw [entered]
  · left
    have fresh : awaits (request .probePing (s.epoch + 1) {clearAllTimers {s with epoch := s.epoch + 1} with state := entry}) =
        [.probePing] := by
      exact (left.awaits rfl rfl).trans (by simp [request,clearAllTimers])
    refine ⟨⟨left.owned rfl rfl fun p inside => ?_,started,running,fun held => ?_,fun off => absurd off managed,?_⟩,rfl⟩
    · rcases List.mem_append.mp inside with old | new
      · exact .inl old
      · rw [List.mem_singleton.mp new]
        exact .inr rfl
    · simp [request,clearAllTimers,free] at held
    · rcases probing with rfl | rfl <;> exact ⟨rfl,.inl fresh⟩
  · right
    have owned : Owned {clearAllTimers {s with epoch := s.epoch + 1} with state := entry} :=
      left.owned rfl rfl fun p inside => .inl inside
    exact torn_request (stop_torn owned running) _ _

theorem running_heard (calls : List Call) (running : Running o s) : Running o (heard calls s) ∨ Torn (heard calls s) := by
  induction calls generalizing s with
  | nil => exact .inl running
  | cons call rest ih =>
    have applied : Running o (call.apply s) ∨ Torn (call.apply s) := by
      cases call with
      | stop => exact .inr (stop_torn running.owned running.stopped)
      | retry during =>
        rw [Call.apply,DaemonSupervisor.retry,if_neg (by simp [running.stopped])]
        split
        · exact .inl running
        · rename_i failed
          have failed := not_not.mp failed
          have free : s.proc = none := by
            cases held : s.proc with
            | none => rfl
            | some p =>
              have := running.proc_hosting (by rw [held]; rfl)
              rw [failed] at this
              simp at this
          have managed : o.policy ≠ .off := fun off => by
            have := running.standing off
            rw [failed] at this
            cases this
          have left : Left {s with hostFailures := 0,pingFailures := 0} := (running.owned.left free).same rfl rfl (Nat.le_refl _)
          rcases determination_tidy (s := {s with hostFailures := 0,pingFailures := 0}) left free running.started running.stopped
            managed (.inl rfl) during with ⟨probing,_⟩ | torn
          · exact .inl probing
          · exact .inr torn
    rw [heard]
    rcases applied with still | torn
    · exact ih still
    · rw [heard_stopped rest torn.stopped]
      exact .inr torn

theorem setState_running (calls : List Call) (running : Running o {s with state := next}) :
    Running o (setState (heard calls) next s) ∨ Torn (setState (heard calls) next s) := by
  unfold setState
  split
  · rename_i same
    rw [← same] at running
    exact .inl running
  · exact running_heard calls running

section Transitions
variable (on : Listeners)

theorem dues_schedule (delay : Nat) (due : Due) (s : Supervisor ι) : dues (schedule delay due s) = dues s ++ [due] := by
  simp [dues,schedule]

theorem enterAdopted_running (info : ι) (owned : Owned s) (free : s.proc = none) (started : s.started = true)
    (running : s.stopped = false) (managed : o.policy ≠ .off) (idle : awaits s = []) (calm : stops (on .adopted) = false) :
    Running o (enterAdopted o on info s) := by
  unfold enterAdopted
  rcases setState_steady .adopted
    {clearAllTimers s with lastPing := some info,pingFailures := 0,hostFailures := 0} (on .adopted) running (by simp) with entered | ⟨stopping,_⟩
  · rw [entered]
    refine ⟨⟨owned.pending,owned.watchers,owned.living,owned.on_time⟩,started,running,fun held => ?_,
      fun off => absurd off managed,.inl ⟨rfl,idle⟩⟩
    simp [scheduleAdoptedPing,schedule,clearAllTimers,free] at held
  · rw [calm] at stopping
    cases stopping

theorem enterDefer_running (owned : Owned s) (free : s.proc = none) (started : s.started = true)
    (running : s.stopped = false) (managed : o.policy ≠ .off) (idle : awaits s = []) (calm : stops (on .defer) = false) :
    Running o (enterDefer o on s) := by
  unfold enterDefer
  rcases setState_steady .defer (clearAllTimers s) (on .defer) running (by simp) with entered | ⟨stopping,_⟩
  · rw [entered]
    refine ⟨⟨owned.pending,owned.watchers,owned.living,owned.on_time⟩,started,running,fun held => ?_,
      fun off => absurd off managed,?_⟩
    · simp [scheduleDeferProbe,schedule,clearAllTimers,free] at held
    · simp only [Threaded,scheduleDeferProbe,schedule,if_neg managed]
      exact .inl ⟨rfl,idle⟩
  · rw [calm] at stopping
    cases stopping

theorem enterBackoff_tidy (left : Left s) (free : s.proc = none) (started : s.started = true) (running : s.stopped = false)
    (managed : o.policy ≠ .off) (calm : s.hostFailures + 1 < o.backoffLimit → stops (on .backoff) = false) :
    Running o (enterBackoff o on s) ∨ Torn (enterBackoff o on s) := by
  unfold enterBackoff
  have idle : ∀ (state : SupervisorState), awaits {{clearAllTimers s with epoch := s.epoch + 1,hostFailures := s.hostFailures + 1}
      with state := state} = [] := fun state => left.idle rfl rfl
  have owned : ∀ (state : SupervisorState), Owned {{clearAllTimers s with epoch := s.epoch + 1,hostFailures := s.hostFailures + 1}
      with state := state} := fun state => left.owned rfl rfl fun p inside => .inl inside
  have held : ∀ {p : Prop}, s.proc.isSome = true → p := fun held => by rw [free] at held; cases held
  rcases setState_steady .backoff
    {clearAllTimers s with epoch := s.epoch + 1,hostFailures := s.hostFailures + 1} (on .backoff) running (by simp) with entered | ⟨stopping,entered⟩ <;> simp only [entered]
  · split
    · apply setState_running
      exact ⟨owned .failed,started,running,held,fun off => absurd off managed,⟨rfl,idle .failed⟩⟩
    · left
      refine ⟨⟨(owned .backoff).pending,(owned .backoff).watchers,(owned .backoff).living,(owned .backoff).on_time⟩,started,running,
        held,fun off => absurd off managed,⟨rfl,idle .backoff⟩⟩
  · have torn := stop_torn (owned .backoff) running
    rw [if_pos]
    · right
      unfold setState
      split
      · exact torn
      · rw [heard_stopped _ (by exact torn.stopped)]
        exact ⟨torn.stopped,torn.timers,torn.proc,torn.dead,torn.on_time⟩
    · have count : (stop {{clearAllTimers s with epoch := s.epoch + 1,hostFailures := s.hostFailures + 1} with
          state := SupervisorState.backoff}).hostFailures = s.hostFailures + 1 := by
        rw [stop,if_neg (by simp [clearAllTimers,running])]
        exact (disposeProc_fields _).2.2.2.2.2.2.2
      by_contra few
      rw [count] at few
      rw [calm (by omega)] at stopping
      cases stopping

theorem enterHosting_tidy (spawns : Bool) (left : Left s) (free : s.proc = none) (started : s.started = true)
    (running : s.stopped = false) (managed : o.policy ≠ .off) (calm : stops (on .hosting) = false)
    (backing : s.hostFailures + 1 < o.backoffLimit → stops (on .backoff) = false) :
    Running o (enterHosting o on spawns s) ∨ Torn (enterHosting o on spawns s) := by
  unfold enterHosting
  rcases setState_steady .hosting (clearAllTimers {s with epoch := s.epoch + 1}) (on .hosting)
    running (by simp) with entered | ⟨stopping,_⟩
  · simp only [entered]
    cases spawns with
    | false =>
      simp only [Bool.not_false,if_true]
      have next : Left {clearAllTimers {s with epoch := s.epoch + 1} with state := SupervisorState.hosting} :=
        left.same rfl rfl (Nat.le_succ _)
      exact enterBackoff_tidy on next free started running managed backing
    | true =>
      simp only [Bool.not_true,Bool.false_eq_true,if_false]
      left
      have idle : awaits {clearAllTimers {s with epoch := s.epoch + 1} with state := SupervisorState.hosting} = [] := left.idle rfl rfl
      have spawned : ∀ (i : Nat) q, (s.processes ++ [⟨false,false,some (s.epoch + 1),s.stopped⟩])[i]? = some q →
          s.processes[i]? = some q ∨ i = s.processes.length ∧ q = ⟨false,false,some (s.epoch + 1),s.stopped⟩ := by
        intro i q at'
        rcases Nat.lt_trichotomy i s.processes.length with old | new | past
        · rw [List.getElem?_append_left old] at at'
          exact .inl at'
        · subst new
          simp only [List.getElem?_concat_length,Option.some.injEq] at at'
          exact .inr ⟨rfl,at'.symm⟩
        · rw [List.getElem?_eq_none (by simp; omega)] at at'
          cases at'
      refine ⟨⟨fun p inside => ?_,fun i q e at' watching => ?_,fun i q at' living => ?_,fun q inside => ?_⟩,started,running,
        fun _ => .inl rfl,fun off => absurd off managed,.inl ⟨rfl,idle⟩⟩
      · exact Nat.le_succ_of_le (left.pending p inside)
      · rcases spawned i q at' with old | ⟨rfl,rfl⟩
        · have := left.watchers q (List.mem_of_getElem? old) e watching
          refine ⟨Nat.le_succ_of_le this,fun now => ?_⟩
          change e = s.epoch + 1 at now
          omega
        · cases Option.some.inj watching
          exact ⟨Nat.le_refl _,fun _ => rfl⟩
      · rcases spawned i q at' with old | ⟨rfl,rfl⟩
        · exact absurd living (left.dead i q old)
        · rfl
      · rcases List.mem_append.mp inside with old | new
        · exact left.on_time q old
        · rw [List.mem_singleton.mp new]
          exact running
  · rw [calm] at stopping
    cases stopping

end Transitions

theorem Threaded.same (threaded : Threaded o s) {t : Supervisor ι} (state : t.state = s.state) (times : dues t = dues s)
    (waits : awaits t = awaits s) (epoch : t.epoch = s.epoch) : Threaded o t := by
  unfold Threaded at threaded ⊢
  rw [state,times,waits,epoch]
  exact threaded

theorem threaded_few (threaded : Threaded o s) : awaits s = [] ∨ ∃ a, awaits s = [a] := by
  unfold Threaded at threaded
  split at threaded
  · rcases threaded.2 with here | here <;> exact .inr ⟨_,here⟩
  · rcases threaded.2 with here | here <;> exact .inr ⟨_,here⟩
  · rcases threaded with here | here
    · exact .inl here.2
    · exact .inr ⟨_,here.2⟩
  · split at threaded
    · exact .inl threaded.2
    · rcases threaded with here | here
      · exact .inl here.2
      · exact .inr ⟨_,here.2⟩
  · rcases threaded with here | here
    · exact .inl here.2
    · exact .inr ⟨_,here.2⟩
  · exact .inl threaded.2
  · exact .inl threaded.2
  · exact .inl threaded.2

-- A call that goes on was either stale already or the only one of the present epoch.
theorem leave_awaits {slot : Nat} (threaded : Threaded o s) (waiting : s.pending[slot]? = some p) :
    (p.epoch ≠ s.epoch ∧ awaits (leave slot s) = awaits s) ∨
      (p.epoch = s.epoch ∧ awaits s = [p.await] ∧ awaits (leave slot s) = []) := by
  obtain ⟨bound,found⟩ := List.getElem?_eq_some_iff.mp waiting
  have perm : (p :: s.pending.eraseIdx slot).Perm s.pending := found ▸ List.getElem_cons_eraseIdx_perm bound
  have waits := ((perm.filter fun p => decide (p.epoch = s.epoch)).map (·.await))
  by_cases now : p.epoch = s.epoch
  · right
    rw [List.filter_cons_of_pos (by simpa using now),List.map_cons] at waits
    rcases threaded_few threaded with none' | ⟨a,one⟩
    · rw [awaits] at none'
      rw [none'] at waits
      cases waits.eq_nil
    · have same : awaits s = [a] := one
      rw [awaits] at one
      rw [one] at waits
      obtain ⟨rfl,rest⟩ := List.cons.inj (List.perm_singleton.mp waits)
      exact ⟨now,same,rest⟩
  · left
    rw [List.filter_cons_of_neg (by simpa using now)] at waits
    refine ⟨now,?_⟩
    have waits : (awaits (leave slot s)).Perm (awaits s) := waits
    rcases threaded_few threaded with none' | ⟨a,one⟩
    · rw [none'] at waits ⊢
      exact waits.eq_nil
    · rw [one] at waits ⊢
      exact List.perm_singleton.mp waits

theorem leave_owned (owned : Owned s) (slot : Nat) : Owned (leave slot s) :=
  ⟨fun p inside => owned.pending p (List.mem_of_mem_eraseIdx inside),owned.watchers,owned.living,owned.on_time⟩

-- Where a call of the present epoch goes on, the supervisor is in the state that made it.
def Resumes (o : Options) (s : Supervisor ι) : Await → Prop
  | .probePing => (s.state = .probe ∨ s.state = .reprobe) ∧ dues s = []
  | .detection => (s.state = .probe ∨ s.state = .reprobe) ∧ dues s = []
  | .adoptedPing => s.state = .adopted ∧ dues s = []
  | .deferPing => s.state = .defer ∧ dues s = [] ∧ o.policy ≠ .off
  | .readyPing => s.state = .hosting ∧ dues s = [.readyTimeout s.epoch]

theorem threaded_await (threaded : Threaded o s) (waits : awaits s = [a]) : Resumes o s a := by
  unfold Threaded at threaded
  rw [waits] at threaded
  cases state : s.state <;> rw [state] at threaded <;> simp only at threaded
  · rcases threaded with ⟨times,here | here⟩ <;> cases here <;> exact ⟨.inl state,times⟩
  · rcases threaded with ⟨_,here⟩ | ⟨times,here⟩ <;> cases here
    exact ⟨state,times⟩
  · split at threaded
    · cases threaded.2
    · rename_i managed
      rcases threaded with ⟨_,here⟩ | ⟨times,here⟩ <;> cases here
      exact ⟨state,times,managed⟩
  · rcases threaded with ⟨times,here | here⟩ <;> cases here <;> exact ⟨.inr state,times⟩
  · rcases threaded with ⟨_,here⟩ | ⟨times,here⟩ <;> cases here
    exact ⟨state,times⟩
  · cases threaded.2
  · cases threaded.2
  · cases threaded.2

theorem dues_unschedule (slot : Nat) (s : Supervisor ι) : dues (unschedule slot s) = (dues s).eraseIdx slot := by
  simp [dues,unschedule,List.eraseIdx_map]

-- So is it where a timer fires, and nothing else is under way beside a readiness ping.
def Fires (o : Options) (s : Supervisor ι) (slot : Nat) : Due → Prop
  | .adoptedPing => s.state = .adopted ∧ awaits s = [] ∧ (dues s).eraseIdx slot = []
  | .deferProbe => s.state = .defer ∧ o.policy ≠ .off ∧ awaits s = [] ∧ (dues s).eraseIdx slot = []
  | .readyTimeout epoch => s.state = .hosting ∧ epoch = s.epoch
  | .readyPoll epoch => s.state = .hosting ∧ epoch = s.epoch ∧ awaits s = [] ∧
      (dues s).eraseIdx slot = [.readyTimeout s.epoch]
  | .determination => s.state = .backoff ∧ awaits s = [] ∧ (dues s).eraseIdx slot = []

theorem threaded_due {slot : Nat} {due : Due} (threaded : Threaded o s) (timed : (dues s)[slot]? = some due) :
    Fires o s slot due := by
  have only : ∀ d, dues s = [d] → d = due ∧ (dues s).eraseIdx slot = [] := by
    intro d one
    rw [one] at timed ⊢
    cases slot with
    | zero => exact ⟨Option.some.inj timed,rfl⟩
    | succ n => cases timed
  have none' : dues s ≠ [] := fun empty => by rw [empty] at timed; cases timed
  unfold Threaded at threaded
  cases state : s.state <;> rw [state] at threaded <;> simp only at threaded
  · exact absurd threaded.1 none'
  · rcases threaded with ⟨times,waits⟩ | ⟨times,_⟩
    · obtain ⟨rfl,rest⟩ := only _ times
      exact ⟨state,waits,rest⟩
    · exact absurd times none'
  · split at threaded
    · exact absurd threaded.1 none'
    · rename_i managed
      rcases threaded with ⟨times,waits⟩ | ⟨times,_⟩
      · obtain ⟨rfl,rest⟩ := only _ times
        exact ⟨state,managed,waits,rest⟩
      · exact absurd times none'
  · exact absurd threaded.1 none'
  · rcases threaded with ⟨times,waits⟩ | ⟨times,_⟩
    · rw [times] at timed
      match slot with
      | 0 => cases Option.some.inj timed; exact ⟨state,rfl⟩
      | 1 => cases Option.some.inj timed; exact ⟨state,rfl,waits,by rw [times]; rfl⟩
      | n+2 => cases timed
    · obtain ⟨rfl,_⟩ := only _ times
      exact ⟨state,rfl⟩
  · exact absurd threaded.1 none'
  · obtain ⟨rfl,rest⟩ := only _ threaded.1
    exact ⟨state,threaded.2,rest⟩
  · exact absurd threaded.1 none'

section Step
variable {event : Event ι}

theorem running_free (running : Running o s) (hosting : s.state ≠ .hosting) (hosted : s.state ≠ .hosted) : s.proc = none := by
  cases held : s.proc with
  | none => rfl
  | some p =>
    rcases running.proc_hosting (by rw [held]; rfl) with here | here
    · exact absurd here hosting
    · exact absurd here hosted

theorem running_managed (running : Running o s) (defer : s.state ≠ .defer) : o.policy ≠ .off :=
  fun off => defer (running.standing off)

theorem leave_stale {slot : Nat} (running : Running o s) (same : awaits (leave slot s) = awaits s) : Running o (leave slot s) :=
  ⟨leave_owned running.owned slot,running.started,running.stopped,running.proc_hosting,running.standing,
    running.threaded.same rfl rfl same rfl⟩

theorem awaits_request (idle : awaits s = []) (await : Await) : awaits (request await s.epoch s) = [await] := by
  have split : awaits (request await s.epoch s) = awaits s ++ [await] := by
    simp only [awaits,request,List.filter_append,List.map_append]
    simp
    rfl
  rw [split,idle]
  rfl

theorem owned_request (owned : Owned s) (await : Await) : Owned (request await s.epoch s) := by
  refine ⟨fun q inside => ?_,owned.watchers,owned.living,owned.on_time⟩
  rcases List.mem_append.mp inside with old | new
  · exact owned.pending q old
  · rw [List.mem_singleton.mp new]
    exact Nat.le_refl _

theorem pinged_tidy {slot : Nat} (running : Running o s) (orderly : Orderly o s event) (waiting : s.pending[slot]? = some p)
    (kind : p.await ≠ .detection) (info : Option ι) :
    Running o (pinged o event.listeners p.await p.epoch info (leave slot s)) ∨
      Torn (pinged o event.listeners p.await p.epoch info (leave slot s)) := by
  have owned := leave_owned running.owned slot
  rcases leave_awaits running.threaded waiting with ⟨stale,same⟩ | ⟨now,waits,idle⟩
  · unfold pinged
    rw [if_pos (by simp [invalidated,leave,Ne.symm stale])]
    exact .inl (leave_stale running same)
  · obtain ⟨await,epoch⟩ := p
    cases now
    have threaded := threaded_await running.threaded waits
    unfold pinged
    rw [if_neg (by simp [invalidated,leave,running.stopped])]
    cases await with
    | probePing =>
      obtain ⟨probing,none'⟩ := threaded
      have free : s.proc = none := by rcases probing with here | here <;> exact running_free running (by simp [here]) (by simp [here])
      have managed : o.policy ≠ .off := by rcases probing with here | here <;> exact running_managed running (by simp [here])
      cases info with
      | some info =>
        exact .inl (enterAdopted_running event.listeners info owned free running.started running.stopped managed idle orderly.adopted)
      | none =>
        refine .inl ⟨owned_request owned _,running.started,running.stopped,running.proc_hosting,running.standing,?_⟩
        have fresh : awaits (request .detection s.epoch (leave slot s)) = [.detection] := awaits_request idle _
        have empty : dues (request .detection s.epoch (leave slot s)) = [] := none'
        unfold Threaded
        rcases probing with here | here <;> simp only [show (request .detection s.epoch (leave slot s)).state = s.state from rfl,here] <;>
          exact ⟨empty,.inr fresh⟩
    | detection => exact absurd rfl kind
    | adoptedPing =>
      obtain ⟨here,none'⟩ := threaded
      have free := running_free running (by simp [here]) (by simp [here])
      have managed := running_managed running (by simp [here])
      have times : dues (leave slot s) = [] := none'
      -- The next ping is set, whatever else of the fields changes.
      have again : ∀ t : Supervisor ι, Owned t → t.started = true → t.stopped = false → t.proc = none → t.state = .adopted →
          dues t = [] → awaits t = [] → Running o (scheduleAdoptedPing o t) := by
        intro t owned started open' free state times waits
        refine ⟨⟨owned.pending,owned.watchers,owned.living,owned.on_time⟩,started,open',
          fun held => by simp [scheduleAdoptedPing,schedule,free] at held,fun off => absurd off managed,?_⟩
        have state' : (scheduleAdoptedPing o t).state = .adopted := state
        rw [Threaded,state']
        exact .inl ⟨by rw [scheduleAdoptedPing,dues_schedule,times]; rfl,waits⟩
      cases info with
      | some info =>
        simp only
        rw [if_neg (by simpa [leave] using here)]
        exact .inl (again {leave slot s with lastPing := some info,pingFailures := 0}
          ⟨owned.pending,owned.watchers,owned.living,owned.on_time⟩ running.started running.stopped free here times idle)
      | none =>
        simp only
        rw [if_neg (by simpa [leave] using here)]
        split
        · rcases determination_tidy (s := {leave slot s with pingFailures := 0}) ((owned.left free).same rfl rfl (Nat.le_refl _)) free
            running.started running.stopped managed (.inr rfl) (event.listeners .reprobe) with ⟨probing,_⟩ | torn
          · exact .inl probing
          · exact .inr torn
        · exact .inl (again {leave slot s with pingFailures := s.pingFailures + 1}
            ⟨owned.pending,owned.watchers,owned.living,owned.on_time⟩ running.started running.stopped free here times idle)
    | deferPing =>
      obtain ⟨here,none',managed⟩ := threaded
      have free := running_free running (by simp [here]) (by simp [here])
      cases info with
      | some info =>
        simp only
        rw [if_neg (by simpa [leave] using here)]
        exact .inl (enterAdopted_running event.listeners info owned free running.started running.stopped managed idle orderly.adopted)
      | none =>
        simp only
        rw [if_neg (by simpa [leave] using here)]
        have times : dues (scheduleDeferProbe o (leave slot s)) = [.deferProbe] := by
          rw [scheduleDeferProbe,dues_schedule,show dues (leave slot s) = [] from none']
          rfl
        have state : (scheduleDeferProbe o (leave slot s)).state = .defer := here
        refine .inl ⟨⟨owned.pending,owned.watchers,owned.living,owned.on_time⟩,running.started,running.stopped,
          running.proc_hosting,running.standing,?_⟩
        rw [Threaded,state]
        simp only [if_neg managed]
        exact .inl ⟨times,idle⟩
    | readyPing =>
      obtain ⟨here,only⟩ := threaded
      have managed := running_managed running (by simp [here])
      cases info with
      | some info =>
        simp only
        rw [if_neg (by simpa [leave] using here)]
        apply setState_running
        exact ⟨⟨owned.pending,owned.watchers,owned.living,owned.on_time⟩,running.started,running.stopped,fun _ => .inr rfl,
          fun off => absurd off managed,⟨rfl,idle⟩⟩
      | none =>
        simp only
        rw [if_neg (by simpa [leave] using here)]
        have times : dues (scheduleReadyPoll o s.epoch (leave slot s)) = [.readyTimeout s.epoch,.readyPoll s.epoch] := by
          rw [scheduleReadyPoll,dues_schedule,show dues (leave slot s) = _ from only]
          rfl
        have state : (scheduleReadyPoll o s.epoch (leave slot s)).state = .hosting := here
        refine .inl ⟨⟨owned.pending,owned.watchers,owned.living,owned.on_time⟩,running.started,running.stopped,
          running.proc_hosting,running.standing,?_⟩
        rw [Threaded,state]
        exact .inl ⟨times,idle⟩

theorem detected_tidy {slot : Nat} (running : Running o s) (orderly : Orderly o s event) (waiting : s.pending[slot]? = some p)
    (kind : p.await = .detection) (found spawns : Bool) :
    Running o (detected o event.listeners p.epoch found spawns (leave slot s)) ∨
      Torn (detected o event.listeners p.epoch found spawns (leave slot s)) := by
  have owned := leave_owned running.owned slot
  unfold detected
  rcases leave_awaits running.threaded waiting with ⟨stale,same⟩ | ⟨now,waits,idle⟩
  · rw [if_pos (by simp [invalidated,leave,Ne.symm stale])]
    exact .inl (leave_stale running same)
  · rw [kind] at waits
    obtain ⟨probing,_⟩ := threaded_await running.threaded waits
    have free : s.proc = none := by rcases probing with here | here <;> exact running_free running (by simp [here]) (by simp [here])
    have managed : o.policy ≠ .off := by rcases probing with here | here <;> exact running_managed running (by simp [here])
    have deferred := enterDefer_running event.listeners owned free running.started running.stopped managed idle (orderly.defer managed)
    rw [if_neg (by simp [invalidated,leave,running.stopped,now])]
    split
    · exact .inl deferred
    · split
      · exact .inl deferred
      · exact enterHosting_tidy event.listeners spawns (owned.left free) free running.started running.stopped managed orderly.hosting
          orderly.backoff

theorem fired_tidy {slot : Nat} (running : Running o s) (orderly : Orderly o s event) (timed : s.timers[slot]? = some timer) :
    Running o (fired o event.listeners timer.due (unschedule slot s)) ∨
      Torn (fired o event.listeners timer.due (unschedule slot s)) := by
  have owned : Owned (unschedule slot s) :=
    ⟨running.owned.pending,running.owned.watchers,running.owned.living,running.owned.on_time⟩
  have fires : Fires o s slot timer.due := threaded_due running.threaded (by simp [dues,timed])
  have times := dues_unschedule slot s
  unfold fired
  rw [if_neg (by simp [unschedule,running.stopped])]
  cases due : timer.due with
  | adoptedPing =>
    rw [due] at fires
    obtain ⟨here,idle,rest⟩ := fires
    have state : (request .adoptedPing s.epoch (unschedule slot s)).state = .adopted := here
    refine .inl ⟨owned_request owned _,running.started,running.stopped,running.proc_hosting,running.standing,?_⟩
    rw [Threaded,show (request .adoptedPing (unschedule slot s).epoch (unschedule slot s)).state = .adopted from here]
    exact .inr ⟨times.trans rest,awaits_request (s := unschedule slot s) idle _⟩
  | deferProbe =>
    rw [due] at fires
    obtain ⟨here,managed,idle,rest⟩ := fires
    refine .inl ⟨owned_request owned _,running.started,running.stopped,running.proc_hosting,running.standing,?_⟩
    rw [Threaded,show (request .deferPing (unschedule slot s).epoch (unschedule slot s)).state = .defer from here]
    simp only [if_neg managed]
    exact .inr ⟨times.trans rest,awaits_request (s := unschedule slot s) idle _⟩
  | readyTimeout epoch =>
    rw [due] at fires
    obtain ⟨here,rfl⟩ := fires
    have managed := running_managed running (by simp [here])
    simp only
    rw [if_neg (by simp [invalidated,unschedule,running.stopped])]
    obtain ⟨proc,_,_,_,stopped,started,_,failures⟩ := disposeProc_fields (unschedule slot s)
    exact enterBackoff_tidy event.listeners (disposeProc_left owned) proc (started.trans running.started) (stopped.trans running.stopped)
      managed (by rw [failures]; exact orderly.backoff)
  | readyPoll epoch =>
    rw [due] at fires
    obtain ⟨here,rfl,idle,rest⟩ := fires
    simp only
    rw [if_neg (by simp [invalidated,unschedule,running.stopped])]
    refine .inl ⟨owned_request owned _,running.started,running.stopped,running.proc_hosting,running.standing,?_⟩
    rw [Threaded,show (request .readyPing s.epoch (unschedule slot s)).state = .hosting from here]
    exact .inr ⟨times.trans rest,awaits_request (s := unschedule slot s) idle _⟩
  | determination =>
    rw [due] at fires
    obtain ⟨here,_⟩ := fires
    have free := running_free running (by simp [here]) (by simp [here])
    have managed := running_managed running (by simp [here])
    rcases determination_tidy (s := unschedule slot s) (owned.left free) free running.started running.stopped managed (.inl rfl)
      (event.listeners .probe) with ⟨probing,_⟩ | torn
    · exact .inl probing
    · exact .inr torn

theorem exits_owned (owned : Owned s) (p : Nat) : Owned (exits p s) := by
  have was : ∀ (i : Nat) q, (exits p s).processes[i]? = some q → ∃ old, s.processes[i]? = some old ∧
      q.watcher = old.watcher ∧ q.late = old.late ∧ (alive q → alive old) := by
    intro i q at'
    simp only [exits,List.getElem?_modify] at at'
    obtain ⟨old,found,made⟩ := Option.map_eq_some_iff.mp at'
    refine ⟨old,found,?_⟩
    rw [← made]
    split
    · exact ⟨rfl,rfl,fun lives => by cases lives.1⟩
    · exact ⟨rfl,rfl,id⟩
  refine ⟨owned.pending,fun i q e at' watching => ?_,fun i q at' lives => ?_,fun q inside => ?_⟩
  · obtain ⟨old,found,same,_⟩ := was i q at'
    exact owned.watchers i old e found (same ▸ watching)
  · obtain ⟨old,found,_,_,lived⟩ := was i q at'
    exact owned.living i old found (lived lives)
  · obtain ⟨i,at'⟩ := List.mem_iff_getElem?.mp inside
    obtain ⟨old,found,_,same,_⟩ := was i q at'
    rw [same]
    exact owned.on_time old (List.mem_of_getElem? found)

theorem unwatch_was (p : Nat) (s : Supervisor ι) (i : Nat) (q : DaemonProcess) (at' : (unwatch p s).processes[i]? = some q) :
    ∃ old, s.processes[i]? = some old ∧ q.late = old.late ∧ (alive q ↔ alive old) ∧
      ∀ e, q.watcher = some e → old.watcher = some e ∧ i ≠ p := by
  simp only [unwatch,List.getElem?_modify] at at'
  obtain ⟨old,found,made⟩ := Option.map_eq_some_iff.mp at'
  refine ⟨old,found,?_⟩
  rw [← made]
  split
  · exact ⟨rfl,Iff.rfl,fun e watching => by cases watching⟩
  · rename_i other
    exact ⟨rfl,Iff.rfl,fun e watching => ⟨watching,fun same => other same.symm⟩⟩

theorem unwatch_owned (owned : Owned s) (p : Nat) : Owned (unwatch p s) := by
  refine ⟨owned.pending,fun i q e at' watching => ?_,fun i q at' lives => ?_,fun q inside => ?_⟩
  · obtain ⟨old,found,_,_,watched⟩ := unwatch_was p s i q at'
    exact owned.watchers i old e found (watched e watching).1
  · obtain ⟨old,found,_,lived,_⟩ := unwatch_was p s i q at'
    exact owned.living i old found (lived.mp lives)
  · obtain ⟨i,at'⟩ := List.mem_iff_getElem?.mp inside
    obtain ⟨old,found,same,_⟩ := unwatch_was p s i q at'
    rw [same]
    exact owned.on_time old (List.mem_of_getElem? found)

theorem watched_tidy {p : Nat} (running : Running o s) (orderly : Orderly o s event) (found : s.processes[p]? = some q)
    (exited : q.exited = true) (watching : q.watcher = some epoch) :
    Running o (watched o event.listeners epoch (unwatch p s)) ∨ Torn (watched o event.listeners epoch (unwatch p s)) := by
  have owned := unwatch_owned running.owned p
  unfold watched
  split
  · exact .inl ⟨owned,running.started,running.stopped,running.proc_hosting,running.standing,
      running.threaded.same rfl rfl rfl rfl⟩
  · rename_i valid
    have now : s.epoch = epoch := by simpa [invalidated,unwatch,running.stopped] using valid
    have mine : s.proc = some p := (running.owned.watchers p q epoch found watching).2 now.symm
    have managed : o.policy ≠ .off := by
      intro off
      have defer := running.standing off
      rcases running.proc_hosting (by rw [mine]; rfl) with here | here <;> rw [defer] at here <;> cases here
    have left : Left {unwatch p s with proc := none} := by
      refine ⟨owned.pending,fun r inside e watched => ?_,fun i r at' lives => ?_,owned.on_time⟩
      · obtain ⟨i,at'⟩ := List.mem_iff_getElem?.mp inside
        exact (owned.watchers i r e at' watched).1
      · obtain ⟨old,at',_,lived,_⟩ := unwatch_was p s i r at'
        have same := running.owned.living i old at' (lived.mp lives)
        rw [mine] at same
        cases Option.some.inj same
        cases found.symm.trans at'
        rw [(lived.mp lives).1] at exited
        cases exited
    exact enterBackoff_tidy event.listeners left rfl running.started running.stopped managed orderly.backoff

theorem start_tidy (o : Options) (on : Listeners) : Tidy o (start o on ({} : Supervisor ι)) := by
  unfold start
  rw [if_neg (by simp)]
  split
  · rename_i off
    have standing : Running o ({state := .defer,started := true} : Supervisor ι) :=
      ⟨⟨by simp,by simp,by simp,by simp⟩,rfl,rfl,by simp,fun _ => rfl,by simp [Threaded,off,dues,awaits]⟩
    exact .inr (setState_running (s := {started := true}) (on .defer) standing)
  · rename_i managed
    have left : Left ({started := true} : Supervisor ι) := ⟨by simp,by simp,by simp,by simp⟩
    rcases determination_tidy (s := ({started := true} : Supervisor ι)) left rfl rfl rfl managed (.inl rfl) (on .probe) with
      ⟨probing,_⟩ | torn
    · exact .inr (.inl probing)
    · exact .inr (.inr torn)

theorem running_step (running : Running o s) (orderly : Orderly o s event) (stepped : advance o s event = some after) :
    Running o after ∨ Torn after := by
  unfold advance at stepped
  split at stepped
  · cases stepped
    rw [start,if_pos (by simp [running.started])]
    exact .inl running
  · cases stepped
    exact .inr (stop_torn running.owned running.stopped)
  · cases stepped
    have retried := running_heard [.retry (event.listeners .probe)] running
    rwa [heard,heard,Call.apply] at retried
  · obtain ⟨p,waiting,went⟩ := Option.bind_eq_some_iff.mp stepped
    split at went
    · cases went
    · rename_i kind
      cases went
      exact pinged_tidy running orderly waiting kind _
  · obtain ⟨p,waiting,went⟩ := Option.bind_eq_some_iff.mp stepped
    split at went
    · rename_i kind
      cases went
      exact detected_tidy running orderly waiting kind _ _
    · cases went
  · obtain ⟨timer,timed,rfl⟩ := Option.map_eq_some_iff.mp stepped
    exact fired_tidy running orderly timed
  · obtain ⟨q,found,went⟩ := Option.bind_eq_some_iff.mp stepped
    split at went
    · cases went
    · cases went
      exact .inl ⟨exits_owned running.owned _,running.started,running.stopped,running.proc_hosting,running.standing,
        running.threaded.same rfl rfl rfl rfl⟩
  · obtain ⟨q,found,went⟩ := Option.bind_eq_some_iff.mp stepped
    split at went
    · rename_i exited
      obtain ⟨epoch,watching,rfl⟩ := Option.map_eq_some_iff.mp went
      exact watched_tidy running orderly found exited watching
    · cases went

theorem invalidated_stopped (stopped : s.stopped = true) : invalidated epoch s = true := by simp [invalidated,stopped]

theorem torn_step (torn : Torn s) (stepped : advance o s event = some after) : Torn after := by
  unfold advance at stepped
  split at stepped
  · cases stepped
    rwa [start,if_pos (by simp [torn.stopped])]
  · cases stepped
    rwa [stop,if_pos torn.stopped]
  · cases stepped
    rwa [retry,if_pos torn.stopped]
  · obtain ⟨p,_,went⟩ := Option.bind_eq_some_iff.mp stepped
    split at went
    · cases went
    · cases went
      unfold pinged
      rw [if_pos (invalidated_stopped (s := leave _ s) torn.stopped)]
      exact ⟨torn.stopped,torn.timers,torn.proc,torn.dead,torn.on_time⟩
  · obtain ⟨p,_,went⟩ := Option.bind_eq_some_iff.mp stepped
    split at went
    · cases went
      rw [detected,if_pos (invalidated_stopped (s := leave _ s) torn.stopped)]
      exact ⟨torn.stopped,torn.timers,torn.proc,torn.dead,torn.on_time⟩
    · cases went
  · obtain ⟨timer,timed,rfl⟩ := Option.map_eq_some_iff.mp stepped
    rw [torn.timers] at timed
    cases timed
  · obtain ⟨q,_,went⟩ := Option.bind_eq_some_iff.mp stepped
    split at went
    · cases went
    · cases went
      refine ⟨torn.stopped,torn.timers,torn.proc,fun i r at' lives => ?_,fun r inside => ?_⟩
      · simp only [exits,List.getElem?_modify] at at'
        obtain ⟨old,found,made⟩ := Option.map_eq_some_iff.mp at'
        rw [← made] at lives
        split at lives
        · cases lives.1
        · exact torn.dead i old found lives
      · obtain ⟨i,at'⟩ := List.mem_iff_getElem?.mp inside
        simp only [exits,List.getElem?_modify] at at'
        obtain ⟨old,found,made⟩ := Option.map_eq_some_iff.mp at'
        have := torn.on_time old (List.mem_of_getElem? found)
        rw [← made]
        split <;> exact this
  · obtain ⟨q,_,went⟩ := Option.bind_eq_some_iff.mp stepped
    split at went
    · obtain ⟨epoch,_,rfl⟩ := Option.map_eq_some_iff.mp went
      rw [watched,if_pos (invalidated_stopped (s := unwatch _ s) torn.stopped)]
      refine ⟨torn.stopped,torn.timers,torn.proc,fun i r at' lives => ?_,fun r inside => ?_⟩
      · obtain ⟨old,found,_,lived,_⟩ := unwatch_was _ s i r at'
        exact torn.dead i old found (lived.mp lives)
      · obtain ⟨i,at'⟩ := List.mem_iff_getElem?.mp inside
        obtain ⟨old,found,same,_⟩ := unwatch_was _ s i r at'
        rw [same]
        exact torn.on_time old (List.mem_of_getElem? found)
    · cases went

theorem initial_step (stepped : advance o ({} : Supervisor ι) event = some after) : Tidy o after := by
  unfold advance at stepped
  split at stepped
  · cases stepped
    exact start_tidy o event.listeners
  · cases stepped
    exact .inr (.inr (stop_torn ⟨by simp,by simp,by simp,by simp⟩ rfl))
  · cases stepped
    exact .inl (by simp [retry])
  · cases stepped
  · cases stepped
  · cases stepped
  · cases stepped
  · cases stepped

theorem tidy_step (tidy : Tidy o s) (orderly : Orderly o s event) (stepped : advance o s event = some after) : Tidy o after := by
  rcases tidy with rfl | running | torn
  · exact initial_step stepped
  · exact .inr (running_step running orderly stepped)
  · exact .inr (.inr (torn_step torn stepped))

end Step

-- A supervisor whose listeners never stop it as it enters a state it goes on from.
theorem orderly_run_hosts_one (o : Options) (events : List (Event ι)) (s : Supervisor ι)
    (path : Run (advance o) (Orderly o) {} events s) : Sound o s :=
  tidy_sound (path.invariant (Tidy o) (.inl rfl) fun _ _ _ tidy orderly stepped => tidy_step tidy orderly stepped)

def silent : Listeners := fun _ => []

-- Nothing answers, a daemon is spawned and becomes ready, and it is stopped.
def hostedRun : List (Event Nat) :=
  [⟨.start,silent⟩,⟨.pinged 0 none,silent⟩,⟨.detected 0 false true,silent⟩,⟨.fired 1,silent⟩,⟨.pinged 0 (some 7),silent⟩,
    ⟨.stop,silent⟩]

theorem silent_orderly (o : Options) (s : Supervisor ι) (cause : Cause ι) : Orderly o s ⟨cause,silent⟩ :=
  ⟨rfl,fun _ => rfl,rfl,fun _ => rfl⟩

theorem hosted_run_hosts_one : ∃ s, s.stopped = true ∧ s.processes.length = 1 ∧
    Run (advance ⟨.adoptOrHost,5,1000,30000,5000,5000,3,45000,500⟩) (Orderly ⟨.adoptOrHost,5,1000,30000,5000,5000,3,45000,500⟩) {}
      hostedRun s ∧ Sound ⟨.adoptOrHost,5,1000,30000,5000,5000,3,45000,500⟩ s := by
  have path : Run (advance ⟨.adoptOrHost,5,1000,30000,5000,5000,3,45000,500⟩)
      (Orderly ⟨.adoptOrHost,5,1000,30000,5000,5000,3,45000,500⟩) {} hostedRun _ :=
    .cons (silent_orderly _ _ _) rfl (.cons (silent_orderly _ _ _) rfl (.cons (silent_orderly _ _ _) rfl
      (.cons (silent_orderly _ _ _) rfl (.cons (silent_orderly _ _ _) rfl (.cons (silent_orderly _ _ _) rfl .nil)))))
  exact ⟨_,rfl,rfl,path,orderly_run_hosts_one _ _ _ path⟩

-- A listener stops the supervisor as it enters hosting: the daemon is spawned all the same,
-- and nothing is left that would terminate it.
def stoppedHosting : List (Event Nat) :=
  [⟨.start,silent⟩,⟨.pinged 0 none,silent⟩,⟨.detected 0 false true,fun state => if state = .hosting then [.stop] else []⟩]

theorem stopped_hosting_spawns : ∃ s, Run (advance ⟨.adoptOrHost,5,1000,30000,5000,5000,3,45000,500⟩) Any {} stoppedHosting s ∧
    s.stopped = true ∧ s.processes = [⟨false,false,some 2,true⟩] ∧ s.timers.length = 2 ∧
    ¬ Sound ⟨.adoptOrHost,5,1000,30000,5000,5000,3,45000,500⟩ s := by
  refine ⟨_,.cons trivial rfl (.cons trivial rfl (.cons trivial rfl .nil)),rfl,rfl,rfl,fun sound => ?_⟩
  have late := sound.on_time ⟨false,false,some 2,true⟩ List.mem_cons_self
  cases late

end AgentSideCar.DaemonSupervisor
