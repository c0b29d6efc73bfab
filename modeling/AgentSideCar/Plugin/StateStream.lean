import AgentSideCar.Library.Runs
import Mathlib.Algebra.Group.Nat.Defs

namespace AgentSideCar.StateStream
open Runs

inductive StreamMode where | sse | poll
  deriving DecidableEq
inductive StreamStatus where | connecting | open | degraded
  deriving DecidableEq
inductive TimerKind where | poll | rebuild
  deriving DecidableEq

structure Options where
  mode : StreamMode
  pollActiveMs : Nat := 3000
  pollIdleMs : Nat := 15000
  errorThreshold : Nat := 3
  backoffBaseMs : Nat := 5000
  backoffCapMs : Nat := 30000

structure StateSnapshot where
  sessionStatuses : List String

structure Timer where
  id : Nat
  kind : TimerKind
  delay : Nat

-- What a listener is told, and whether stop() had already run when it was told.
inductive Notice where
  | status (value : StreamStatus)
  | snapshot (value : StateSnapshot)
structure Publication where
  listener : Nat
  notice : Notice
  stopped : Bool

-- The instance's fields, then the world it acts on: the timers that will still
-- fire, the event sources not closed, the fetches not settled. Handles, sources
-- and abort controllers are numbered from one counter.
structure State where
  currentStatus : StreamStatus := .connecting
  started : Bool := false
  stopped : Bool := false
  snapshotListeners : List Nat := []
  statusListeners : List Nat := []
  es : Option Nat := none
  sseErrors : Nat := 0
  rebuildAttempts : Nat := 0
  rebuildTimer : Option Nat := none
  pollTimer : Option Nat := none
  inFlight : Option Nat := none
  lastSnapshot : Option StateSnapshot := none
  timers : List Timer := []
  openSources : List Nat := []
  fetches : List Nat := []
  published : List Publication := []
  nextId : Nat := 0

def record (fresh : List Publication) (s : State) : State := {s with published := s.published ++ fresh}

def setTimeout (kind : TimerKind) (delay : Nat) (s : State) : State :=
  {s with timers := s.timers ++ [⟨s.nextId,kind,delay⟩],nextId := s.nextId + 1}
def clearTimeout (handle : Option Nat) (s : State) : State :=
  {s with timers := s.timers.filter fun t => some t.id ≠ handle}
def closeSource (source : Option Nat) (s : State) : State :=
  {s with openSources := s.openSources.filter fun e => some e ≠ source}

def hasWorkingSession (s : State) : Bool :=
  match s.lastSnapshot with
  | none => false
  | some snap => snap.sessionStatuses.any (· = "working")

def scheduleNextPoll (o : Options) (s : State) : State :=
  if s.stopped then s else
  let delay := if hasWorkingSession s then o.pollActiveMs else o.pollIdleMs
  {setTimeout .poll delay s with pollTimer := some s.nextId}

-- `visible` is what visibleFn answers at this tick.
def pollTick (o : Options) (visible : Bool) (s : State) : State :=
  if s.stopped then s
  else if !visible then scheduleNextPoll o s
  else if s.inFlight.isSome then scheduleNextPoll o s
  else {s with inFlight := some s.nextId,fetches := s.nextId :: s.fetches,nextId := s.nextId + 1}

def pollNow (o : Options) (visible : Bool) (s : State) : State :=
  if !s.started || s.stopped || o.mode ≠ .poll then s
  else pollTick o visible {clearTimeout s.pollTimer s with pollTimer := none}

def stop (s : State) : State :=
  if s.stopped then s else
  {closeSource s.es (clearTimeout s.pollTimer (clearTimeout s.rebuildTimer s)) with
    stopped := true,rebuildTimer := none,pollTimer := none,es := none,inFlight := none,
    snapshotListeners := [],statusListeners := []}

-- A listener may call back into the stream while it is being told something.
inductive Call where
  | stop
  | pollNow (visible : Bool)
def Call.apply (o : Options) (s : State) : Call → State
  | .stop => StateStream.stop s
  | .pollNow visible => StateStream.pollNow o visible s

def tell (o : Options) (react : Nat → List Call) (notice : Notice) (s : State) (listener : Nat) : State :=
  (react listener).foldl (Call.apply o) (record [⟨listener,notice,s.stopped⟩] s)

-- The loops run over a copy of the listener set taken before the first call.
def setStatus (o : Options) (react : Nat → List Call) (status : StreamStatus) (s : State) : State :=
  if s.currentStatus = status then s
  else s.statusListeners.foldl (tell o react (.status status)) {s with currentStatus := status}
def emitSnapshot (o : Options) (react : Nat → List Call) (snapshot : StateSnapshot) (s : State) : State :=
  s.snapshotListeners.foldl (tell o react (.snapshot snapshot)) s

def connectSse (s : State) : State :=
  if s.stopped then s
  else {s with es := some s.nextId,openSources := s.openSources ++ [s.nextId],nextId := s.nextId + 1}

def dropSource (s : State) : State := {closeSource s.es s with es := none}

def rebuildLater (o : Options) (s : State) : State :=
  let delay := min (o.backoffBaseMs * 2 ^ s.rebuildAttempts) o.backoffCapMs
  {setTimeout .rebuild delay {s with rebuildAttempts := s.rebuildAttempts + 1} with rebuildTimer := some s.nextId}

def scheduleRebuild (o : Options) (react : Nat → List Call) (s : State) : State :=
  rebuildLater o (setStatus o react .degraded (dropSource s))

def start (o : Options) (visible : Bool) (s : State) : State :=
  if s.started || s.stopped then s
  else match o.mode with
    | .sse => connectSse {s with started := true}
    | .poll => pollTick o visible {s with started := true}

def fetchFulfilled (o : Options) (react : Nat → List Call) (controller : Nat)
    (snapshot : StateSnapshot) (s : State) : State :=
  if s.stopped || s.inFlight ≠ some controller then s else
  let told := setStatus o react .open {s with inFlight := none,lastSnapshot := some snapshot}
  scheduleNextPoll o (emitSnapshot o react snapshot told)

def fetchRejected (o : Options) (react : Nat → List Call) (controller : Nat) (s : State) : State :=
  if s.stopped || s.inFlight ≠ some controller then s else
  scheduleNextPoll o (setStatus o react .degraded {s with inFlight := none})

def sseOpen (o : Options) (react : Nat → List Call) (source : Nat) (s : State) : State :=
  if s.stopped || s.es ≠ some source then s
  else setStatus o react .open {s with sseErrors := 0,rebuildAttempts := 0}

-- `parsed` is none where the frame carries no object.
def sseState (o : Options) (react : Nat → List Call) (source : Nat) (parsed : Option StateSnapshot)
    (s : State) : State :=
  if s.stopped || s.es ≠ some source then s
  else match parsed with
    | none => s
    | some snapshot => emitSnapshot o react snapshot s

def degrades (o : Options) (closed : Bool) (s : State) : Bool :=
  closed || decide (s.sseErrors + 1 > o.errorThreshold)

def sseError (o : Options) (react : Nat → List Call) (source : Nat) (closed : Bool) (s : State) : State :=
  if s.stopped || s.es ≠ some source then s
  else if degrades o closed s then scheduleRebuild o react {s with sseErrors := s.sseErrors + 1}
  else setStatus o react .connecting {s with sseErrors := s.sseErrors + 1}

inductive Event where
  | start (visible : Bool)
  | stop
  | pollNow (visible : Bool)
  | onSnapshot (listener : Nat)
  | offSnapshot (listener : Nat)
  | onStatus (listener : Nat)
  | offStatus (listener : Nat)
  | timerFired (id : Nat) (visible : Bool)
  | fetchFulfilled (controller : Nat) (snapshot : StateSnapshot) (react : Nat → List Call)
  | fetchRejected (controller : Nat) (react : Nat → List Call)
  | sseOpen (source : Nat) (react : Nat → List Call)
  | sseState (source : Nat) (parsed : Option StateSnapshot) (react : Nat → List Call)
  | sseError (source : Nat) (closed : Bool) (react : Nat → List Call)

-- Only a scheduled timer fires and only a running fetch settles. The immediate
-- call of onStatus is its last statement, so what that listener does there is
-- the next event.
def advance (o : Options) (s : State) : Event → Option State
  | .start visible => some (start o visible s)
  | .stop => some (stop s)
  | .pollNow visible => some (pollNow o visible s)
  | .onSnapshot l => some (if s.stopped then s else {s with snapshotListeners := s.snapshotListeners.insert l})
  | .offSnapshot l => some {s with snapshotListeners := s.snapshotListeners.filter (· ≠ l)}
  | .onStatus l => some (if s.stopped then s else
      record [⟨l,.status s.currentStatus,s.stopped⟩] {s with statusListeners := s.statusListeners.insert l})
  | .offStatus l => some {s with statusListeners := s.statusListeners.filter (· ≠ l)}
  | .timerFired id visible =>
    match s.timers.find? (·.id = id) with
    | none => none
    | some timer =>
      let fired := clearTimeout (some id) s
      match timer.kind with
      | .poll => some (pollTick o visible {fired with pollTimer := none})
      | .rebuild => some (connectSse {fired with rebuildTimer := none})
  | .fetchFulfilled c snapshot react =>
    if c ∈ s.fetches then some (fetchFulfilled o react c snapshot {s with fetches := s.fetches.erase c}) else none
  | .fetchRejected c react =>
    if c ∈ s.fetches then some (fetchRejected o react c {s with fetches := s.fetches.erase c}) else none
  | .sseOpen e react => some (sseOpen o react e s)
  | .sseState e parsed react => some (sseState o react e parsed s)
  | .sseError e closed react => some (sseError o react e closed s)

-- A chain is a scheduled tick or the fetch whose settlement schedules the next.
def chains (s : State) : Nat := (s.timers.filter (·.kind = .poll)).length + s.inFlight.toList.length

structure Sound (s : State) : Prop where
  oneChain : chains s ≤ 1
  released : s.stopped = true → s.timers = [] ∧ s.openSources = []
  silent : ∀ p ∈ s.published, p.stopped = false

-- A listener that is told something while others still wait their turn must not
-- stop the stream, and one told of a settled poll must not poll.
def Quiet (o : Options) (react : Nat → List Call) (listeners : List Nat) : Prop :=
  (o.mode = .poll → ∀ l ∈ listeners, ∀ visible, Call.pollNow visible ∉ react l) ∧
    ∀ l ∈ listeners.dropLast, Call.stop ∉ react l

def Orderly (o : Options) (s : State) : Event → Prop
  | .pollNow _ => s.inFlight = none
  | .fetchFulfilled _ _ react => Quiet o react s.statusListeners ∧ Quiet o react s.snapshotListeners
  | .fetchRejected _ react => Quiet o react s.statusListeners
  | .sseOpen _ react => Quiet o react s.statusListeners
  | .sseState _ _ react => Quiet o react s.snapshotListeners
  | .sseError _ closed react => Quiet o react s.statusListeners ∧
      (degrades o closed s = true → ∀ l ∈ s.statusListeners, Call.stop ∉ react l)
  | _ => True

-- What the instance holds of the world, as one value. A stream is empty-handed
-- (before its start, or inside a handler that has not scheduled yet), between two
-- ticks, inside a fetch, on a source, between two sources, or stopped.
def resources (s : State) : List Timer × Option Nat × Option Nat × Option Nat × List Nat × Option Nat :=
  (s.timers,s.pollTimer,s.rebuildTimer,s.es,s.openSources,s.inFlight)

def Empty (s : State) : Prop := resources s = ([],none,none,none,[],none)

inductive Phased (o : Options) (s : State) : Prop where
  | idle : s.stopped = false → Empty s → Phased o s
  | waiting (id delay : Nat) : o.mode = .poll → s.started = true → s.stopped = false →
      resources s = ([⟨id,.poll,delay⟩],some id,none,none,[],none) → Phased o s
  | fetching (id : Nat) : o.mode = .poll → s.started = true → s.stopped = false →
      resources s = ([],none,none,none,[],some id) → Phased o s
  | streaming (id : Nat) : o.mode = .sse → s.started = true → s.stopped = false →
      resources s = ([],none,none,some id,[id],none) → Phased o s
  | rebuilding (id delay : Nat) : o.mode = .sse → s.started = true → s.stopped = false →
      resources s = ([⟨id,.rebuild,delay⟩],none,some id,none,[],none) → Phased o s
  | stopped : s.stopped = true → s.snapshotListeners = [] → s.statusListeners = [] →
      Empty s → Phased o s

theorem Phased.deaf (phased : Phased o s) (halted : s.stopped = true) :
    s.snapshotListeners = [] ∧ s.statusListeners = [] := by
  cases phased with
  | stopped _ snapshots statuses _ => exact ⟨snapshots,statuses⟩
  | idle live | waiting _ _ _ _ live | fetching _ _ _ live | streaming _ _ _ live
  | rebuilding _ _ _ _ live => simp [halted] at live

theorem Phased.moved (phased : Phased o s) (held : resources t = resources s) (started : t.started = s.started)
    (stopped : t.stopped = s.stopped)
    (deaf : s.stopped = true → t.snapshotListeners = [] ∧ t.statusListeners = []) : Phased o t := by
  cases phased with
  | idle live empty => exact .idle (stopped.trans live) (held.trans empty)
  | waiting id delay mode began live owned =>
    exact .waiting id delay mode (started.trans began) (stopped.trans live) (held.trans owned)
  | fetching id mode began live owned =>
    exact .fetching id mode (started.trans began) (stopped.trans live) (held.trans owned)
  | streaming id mode began live owned =>
    exact .streaming id mode (started.trans began) (stopped.trans live) (held.trans owned)
  | rebuilding id delay mode began live owned =>
    exact .rebuilding id delay mode (started.trans began) (stopped.trans live) (held.trans owned)
  | stopped halted _ _ empty =>
    obtain ⟨snapshots,statuses⟩ := deaf halted
    exact .stopped (stopped.trans halted) snapshots statuses (held.trans empty)

theorem Phased.same (phased : Phased o s) (held : resources t = resources s) (started : t.started = s.started)
    (stopped : t.stopped = s.stopped) (snapshots : t.snapshotListeners = s.snapshotListeners)
    (statuses : t.statusListeners = s.statusListeners) : Phased o t :=
  phased.moved held started stopped fun halted => by
    simpa only [snapshots,statuses] using phased.deaf halted

structure Tidy (o : Options) (s : State) : Prop where
  phased : Phased o s
  silent : ∀ p ∈ s.published, p.stopped = false

theorem tidy_sound (tidy : Tidy o s) : Sound s := by
  refine ⟨?_,?_,tidy.silent⟩
  · cases tidy.phased <;> simp_all [Empty,resources,chains]
  · intro halted
    cases tidy.phased <;> simp_all [Empty,resources]

theorem initial_tidy (o : Options) : Tidy o {} := ⟨.idle rfl rfl,by simp⟩

theorem stop_live (live : s.stopped = false) : stop s =
    {closeSource s.es (clearTimeout s.pollTimer (clearTimeout s.rebuildTimer s)) with
      stopped := true,rebuildTimer := none,pollTimer := none,es := none,inFlight := none,
      snapshotListeners := [],statusListeners := []} := by
  simp [stop,live]

theorem stop_stopped (s : State) : (stop s).stopped = true := by
  unfold stop; split <;> simp_all

theorem stop_again (halted : s.stopped = true) : stop s = s := by simp [stop,halted]

theorem stop_tidy (tidy : Tidy o s) : Tidy o (stop s) := by
  refine ⟨?_,?_⟩
  · cases tidy.phased with
    | stopped halted snapshots statuses held =>
      rw [stop_again halted]; exact .stopped halted snapshots statuses held
    | idle live held | waiting _ _ _ _ live held | fetching _ _ _ live held
    | streaming _ _ _ live held | rebuilding _ _ _ _ live held =>
      rw [stop_live live]
      simp only [Empty,resources,Prod.mk.injEq] at held
      obtain ⟨timers,poll,rebuild,es,sources,flight⟩ := held
      exact .stopped rfl rfl rfl (by simp [Empty,resources,closeSource,clearTimeout,timers,poll,rebuild,es,sources])
  · unfold stop; split <;> exact tidy.silent

theorem record_nil (s : State) : record [] s = s := by simp [record]

theorem record_record (first second : List Publication) (s : State) :
    record second (record first s) = record (first ++ second) s := by simp [record,List.append_assoc]

-- The outcome of telling a set of listeners: nothing but the log has moved, or
-- the last of them has stopped the stream.
inductive Told (s : State) : State → Prop where
  | kept (fresh : List Publication) : (∀ p ∈ fresh, p.stopped = false) → Told s (record fresh s)
  | halted (fresh : List Publication) : (∀ p ∈ fresh, p.stopped = false) → Told s (stop (record fresh s))

theorem pollNow_stopped (halted : s.stopped = true) : pollNow o visible s = s := by simp [pollNow,halted]

theorem pollNow_sse (mode : o.mode ≠ .poll) : pollNow o visible s = s := by simp [pollNow,mode]

theorem calls_stopped (calls : List Call) (halted : s.stopped = true) : calls.foldl (Call.apply o) s = s := by
  induction calls with
  | nil => rfl
  | cons call rest ih =>
    cases call <;> simpa [Call.apply,stop_again halted,pollNow_stopped halted] using ih

theorem calls_quiet (calls : List Call) (quiet : o.mode = .poll → ∀ visible, Call.pollNow visible ∉ calls) :
    calls.foldl (Call.apply o) s = s ∨
      Call.stop ∈ calls ∧ calls.foldl (Call.apply o) s = stop s := by
  induction calls with
  | nil => exact .inl rfl
  | cons call rest ih =>
    cases call with
    | stop =>
      refine .inr ⟨List.mem_cons_self,?_⟩
      simp only [List.foldl_cons,Call.apply]
      exact calls_stopped rest (stop_stopped s)
    | pollNow visible =>
      have sse : o.mode ≠ .poll := fun mode => quiet mode visible List.mem_cons_self
      simp only [List.foldl_cons,Call.apply,pollNow_sse sse]
      rcases ih (fun mode => absurd mode sse) with same | ⟨present,halted⟩
      · exact .inl same
      · exact .inr ⟨List.mem_cons_of_mem _ present,halted⟩

theorem quiet_tail (quiet : Quiet o react (l :: rest)) : Quiet o react rest := by
  refine ⟨fun mode m member => quiet.1 mode m (List.mem_cons_of_mem _ member),?_⟩
  intro m member
  cases rest with
  | nil => simp at member
  | cons => exact quiet.2 m (by simp_all [List.dropLast_cons_of_ne_nil])

theorem told_record (told : Told (record first s) after) (silent : ∀ p ∈ first, p.stopped = false) :
    Told s after := by
  have widen : ∀ fresh : List Publication, (∀ p ∈ fresh, p.stopped = false) →
      ∀ p ∈ first ++ fresh, p.stopped = false := by
    intro fresh fine p member
    rcases List.mem_append.mp member with early | late
    · exact silent p early
    · exact fine p late
  cases told with
  | kept fresh fine => rw [record_record]; exact .kept _ (widen fresh fine)
  | halted fresh fine => rw [record_record]; exact .halted _ (widen fresh fine)

theorem loop_told (o : Options) (react : Nat → List Call) (notice : Notice) (listeners : List Nat)
    (live : s.stopped = false) (quiet : Quiet o react listeners) :
    Told s (listeners.foldl (tell o react notice) s) := by
  induction listeners generalizing s with
  | nil => simpa only [List.foldl_nil,record_nil] using Told.kept (s := s) [] (by simp)
  | cons l rest ih =>
    have silent : ∀ p ∈ [Publication.mk l notice s.stopped], p.stopped = false := by simp [live]
    rw [List.foldl_cons]
    rcases calls_quiet (s := record [⟨l,notice,s.stopped⟩] s) (react l)
      (fun mode => quiet.1 mode l List.mem_cons_self) with same | ⟨present,halted⟩
    · rw [show tell o react notice s l = _ from same]
      exact told_record (ih live (quiet_tail quiet)) silent
    · rw [show tell o react notice s l = _ from halted]
      cases rest with
      | cons next others => exact absurd present (quiet.2 l (by simp))
      | nil => exact .halted _ silent

theorem loop_kept (o : Options) (react : Nat → List Call) (notice : Notice) (listeners : List Nat)
    (live : s.stopped = false) (quiet : Quiet o react listeners)
    (resumed : ∀ l ∈ listeners, Call.stop ∉ react l) : ∃ fresh, (∀ p ∈ fresh, p.stopped = false) ∧
      listeners.foldl (tell o react notice) s = record fresh s := by
  induction listeners generalizing s with
  | nil => exact ⟨[],by simp,(record_nil s).symm⟩
  | cons l rest ih =>
    have same : tell o react notice s l = record [⟨l,notice,s.stopped⟩] s := by
      rcases calls_quiet (s := record [⟨l,notice,s.stopped⟩] s) (react l)
        (fun mode => quiet.1 mode l List.mem_cons_self) with same | ⟨present,_⟩
      · exact same
      · exact absurd present (resumed l List.mem_cons_self)
    obtain ⟨fresh,fine,later⟩ := ih (s := record [⟨l,notice,s.stopped⟩] s) live (quiet_tail quiet)
      (fun m member => resumed m (List.mem_cons_of_mem _ member))
    refine ⟨⟨l,notice,s.stopped⟩ :: fresh,?_,?_⟩
    · intro p member
      rcases List.mem_cons.mp member with rfl | member
      · exact live
      · exact fine p member
    · rw [List.foldl_cons,same,later,record_record]; rfl

theorem told_tidy (told : Told s after) (tidy : Tidy o s) : Tidy o after := by
  have logged : ∀ fresh : List Publication, (∀ p ∈ fresh, p.stopped = false) → Tidy o (record fresh s) := by
    intro fresh fine
    refine ⟨tidy.phased.same rfl rfl rfl rfl rfl,?_⟩
    intro p member
    rcases List.mem_append.mp member with old | new
    · exact tidy.silent p old
    · exact fine p new
  cases told with
  | kept fresh fine => exact logged fresh fine
  | halted fresh fine => exact stop_tidy (logged fresh fine)

theorem told_live (told : Told s after) (live : after.stopped = false) :
    resources after = resources s ∧ after.started = s.started ∧
      after.snapshotListeners = s.snapshotListeners := by
  cases told with
  | kept fresh fine => exact ⟨rfl,rfl,rfl⟩
  | halted fresh fine => simp [stop_stopped] at live

theorem setStatus_told (status : StreamStatus) (live : s.stopped = false) (quiet : Quiet o react s.statusListeners) :
    ∃ shown, Told {s with currentStatus := shown} (setStatus o react status s) := by
  unfold setStatus
  split
  · rename_i same
    refine ⟨s.currentStatus,?_⟩
    simpa only [record_nil] using Told.kept (s := s) [] (by simp)
  · exact ⟨status,loop_told o react _ _ live quiet⟩

theorem emit_told (snapshot : StateSnapshot) (live : s.stopped = false) (quiet : Quiet o react s.snapshotListeners) :
    Told s (emitSnapshot o react snapshot s) := loop_told o react _ _ live quiet

theorem status_tidy (tidy : Tidy o s) (live : s.stopped = false) (quiet : Quiet o react s.statusListeners) :
    Tidy o (setStatus o react status s) := by
  obtain ⟨shown,told⟩ := setStatus_told status live quiet
  exact told_tidy told ⟨tidy.phased.same rfl rfl rfl rfl rfl,tidy.silent⟩

theorem status_live (status : StreamStatus) (quiet : Quiet o react s.statusListeners) (before : s.stopped = false)
    (live : (setStatus o react status s).stopped = false) :
    resources (setStatus o react status s) = resources s ∧
      (setStatus o react status s).started = s.started ∧
      (setStatus o react status s).snapshotListeners = s.snapshotListeners := by
  obtain ⟨shown,told⟩ := setStatus_told status before quiet
  have kept := told_live told live
  exact kept

theorem emit_stopped (tidy : Tidy o s) (halted : s.stopped = true) : emitSnapshot o react snapshot s = s := by
  simp [emitSnapshot,(tidy.phased.deaf halted).1]

theorem schedule_tidy (tidy : Tidy o s) (mode : o.mode = .poll)
    (rests : s.stopped = false → Empty s ∧ s.started = true) : Tidy o (scheduleNextPoll o s) := by
  unfold scheduleNextPoll
  cases halted : s.stopped with
  | true => simpa [halted] using tidy
  | false =>
    obtain ⟨held,started⟩ := rests halted
    simp only [Empty,resources,Prod.mk.injEq] at held
    obtain ⟨timers,poll,rebuild,es,sources,flight⟩ := held
    refine ⟨?_,tidy.silent⟩
    exact .waiting s.nextId (if hasWorkingSession s then o.pollActiveMs else o.pollIdleMs) mode started
      halted (by simp [resources,setTimeout,timers,rebuild,es,sources,flight])

theorem pollTick_tidy (tidy : Tidy o s) (mode : o.mode = .poll)
    (rests : s.stopped = false → Empty s ∧ s.started = true) : Tidy o (pollTick o visible s) := by
  unfold pollTick
  cases halted : s.stopped with
  | true => simpa [halted] using tidy
  | false =>
    have scheduled := schedule_tidy tidy mode rests
    obtain ⟨held,started⟩ := rests halted
    simp only [Empty,resources,Prod.mk.injEq] at held
    obtain ⟨timers,poll,rebuild,es,sources,flight⟩ := held
    cases visible with
    | false => simpa using scheduled
    | true =>
      simp only [flight,Bool.not_true,Option.isSome_none,Bool.false_eq_true,if_false]
      exact ⟨.fetching s.nextId mode started rfl (by simp [resources,timers,poll,rebuild,es,sources]),tidy.silent⟩

theorem connect_tidy (tidy : Tidy o s) (mode : o.mode = .sse)
    (rests : s.stopped = false → Empty s ∧ s.started = true) : Tidy o (connectSse s) := by
  unfold connectSse
  cases halted : s.stopped with
  | true => simpa [halted] using tidy
  | false =>
    obtain ⟨held,started⟩ := rests halted
    simp only [Empty,resources,Prod.mk.injEq] at held
    obtain ⟨timers,poll,rebuild,es,sources,flight⟩ := held
    simp only [Bool.false_eq_true,if_false]
    exact ⟨.streaming s.nextId mode started rfl (by simp [resources,timers,poll,rebuild,sources,flight]),tidy.silent⟩

theorem start_tidy (tidy : Tidy o s) : Tidy o (start o visible s) := by
  unfold start
  split
  · exact tidy
  · rename_i fresh
    simp only [Bool.or_eq_true,not_or,Bool.not_eq_true] at fresh
    obtain ⟨unstarted,live⟩ := fresh
    have begun : Empty s := by
      cases tidy.phased with
      | idle _ held => exact held
      | stopped _ _ _ held => exact held
      | waiting _ _ _ started | fetching _ _ started | streaming _ _ started | rebuilding _ _ _ started =>
        simp [unstarted] at started
    have ready : Tidy o {s with started := true} := ⟨.idle live begun,tidy.silent⟩
    cases mode : o.mode with
    | sse => exact connect_tidy ready mode fun _ => ⟨begun,rfl⟩
    | poll => exact pollTick_tidy ready mode fun _ => ⟨begun,rfl⟩

theorem pollNow_tidy (tidy : Tidy o s) (idle : s.inFlight = none) : Tidy o (pollNow o visible s) := by
  unfold pollNow
  split
  · exact tidy
  · rename_i admitted
    simp only [Bool.or_eq_true,Bool.not_eq_true',decide_eq_true_eq,not_or,Bool.not_eq_false,Bool.not_eq_true,
      ne_eq,not_not] at admitted
    obtain ⟨⟨started,live⟩,mode⟩ := admitted
    have rested : Empty {clearTimeout s.pollTimer s with pollTimer := none} := by
      cases tidy.phased with
      | idle _ held | waiting _ _ _ _ _ held | stopped _ _ _ held =>
        simp only [Empty,resources,Prod.mk.injEq] at held
        simp [Empty,resources,clearTimeout,held]
      | fetching id _ _ _ held => simp [resources,idle] at held
      | streaming _ sse | rebuilding _ _ sse => simp [mode] at sse
    exact pollTick_tidy ⟨.idle live rested,tidy.silent⟩ mode fun _ => ⟨rested,started⟩

theorem fired_tidy {id : Nat} (visible : Bool) (tidy : Tidy o s) (present : s.timers.find? (·.id = id) = some timer) :
    (timer.kind = .poll → Tidy o (pollTick o visible {clearTimeout (some id) s with pollTimer := none})) ∧
      (timer.kind = .rebuild → Tidy o (connectSse {clearTimeout (some id) s with rebuildTimer := none})) := by
  cases tidy.phased with
  | idle _ held | fetching _ _ _ _ held | streaming _ _ _ _ held | stopped _ _ _ held =>
    simp only [Empty,resources,Prod.mk.injEq] at held
    simp [held.1] at present
  | waiting mine delay mode started live held =>
    simp only [resources,Prod.mk.injEq] at held
    obtain ⟨timers,poll,rebuild,es,sources,flight⟩ := held
    rw [timers,List.find?_singleton] at present
    split at present
    · rename_i same
      cases present
      have rested : Empty {clearTimeout (some id) s with pollTimer := none} := by
        simp_all [Empty,resources,clearTimeout]
      exact ⟨fun _ => pollTick_tidy ⟨.idle live rested,tidy.silent⟩ mode fun _ => ⟨rested,started⟩,nofun⟩
    · cases present
  | rebuilding mine delay mode started live held =>
    simp only [resources,Prod.mk.injEq] at held
    obtain ⟨timers,poll,rebuild,es,sources,flight⟩ := held
    rw [timers,List.find?_singleton] at present
    split at present
    · rename_i same
      cases present
      have rested : Empty {clearTimeout (some id) s with rebuildTimer := none} := by
        simp_all [Empty,resources,clearTimeout]
      exact ⟨nofun,fun _ => connect_tidy ⟨.idle live rested,tidy.silent⟩ mode fun _ => ⟨rested,started⟩⟩
    · cases present

-- Only the fetch the stream holds is heard; once it has settled the stream is
-- empty-handed until the next tick is scheduled.
theorem settled_empty (tidy : Tidy o s) (heard : s.inFlight = some controller) :
    o.mode = .poll ∧ s.started = true ∧ s.stopped = false ∧ Empty {s with inFlight := none} := by
  cases tidy.phased with
  | idle _ held | waiting _ _ _ _ _ held | streaming _ _ _ _ held | rebuilding _ _ _ _ _ held
  | stopped _ _ _ held =>
    simp only [Empty,resources,Prod.mk.injEq] at held
    simp [held] at heard
  | fetching mine mode started live held =>
    simp only [resources,Prod.mk.injEq] at held
    exact ⟨mode,started,live,by simp [Empty,resources,held]⟩

theorem rejected_tidy (tidy : Tidy o s) (quiet : Quiet o react s.statusListeners) :
    Tidy o (fetchRejected o react controller s) := by
  unfold fetchRejected
  split
  · exact tidy
  · rename_i heard
    simp only [Bool.or_eq_true,decide_eq_true_eq,not_or,ne_eq,not_not] at heard
    obtain ⟨mode,started,live,rested⟩ := settled_empty tidy heard.2
    refine schedule_tidy (status_tidy ⟨.idle live rested,tidy.silent⟩ live quiet) mode ?_
    intro open'
    obtain ⟨held,began,_⟩ := status_live (s := {s with inFlight := none}) .degraded quiet live open'
    exact ⟨held.trans rested,began.trans started⟩

theorem fulfilled_tidy (tidy : Tidy o s) (quiet : Quiet o react s.statusListeners)
    (calm : Quiet o react s.snapshotListeners) : Tidy o (fetchFulfilled o react controller snapshot s) := by
  unfold fetchFulfilled
  split
  · exact tidy
  · rename_i heard
    simp only [Bool.or_eq_true,decide_eq_true_eq,not_or,ne_eq,not_not] at heard
    obtain ⟨mode,started,live,rested⟩ := settled_empty tidy heard.2
    have settled : Tidy o {s with inFlight := none,lastSnapshot := some snapshot} :=
      ⟨.idle live rested,tidy.silent⟩
    have announced : Tidy o (setStatus o react .open _) := status_tidy settled live quiet
    have kept := status_live (s := {s with inFlight := none,lastSnapshot := some snapshot}) .open quiet live
    generalize setStatus o react .open {s with inFlight := none,lastSnapshot := some snapshot} = told at *
    show Tidy o (scheduleNextPoll o (emitSnapshot o react snapshot told))
    cases halted : told.stopped with
    | true =>
      rw [emit_stopped announced halted]
      exact schedule_tidy announced mode (by simp [halted])
    | false =>
      obtain ⟨held,began,same⟩ := kept halted
      have shown := emit_told snapshot halted (same ▸ calm)
      refine schedule_tidy (told_tidy shown announced) mode ?_
      intro open'
      obtain ⟨still,onward,_⟩ := told_live shown open'
      exact ⟨(still.trans held).trans rested,(onward.trans began).trans started⟩

theorem sourced_empty (tidy : Tidy o s) (heard : s.es = some source) :
    o.mode = .sse ∧ s.started = true ∧ s.stopped = false ∧ Empty (dropSource s) := by
  cases tidy.phased with
  | idle _ held | waiting _ _ _ _ _ held | fetching _ _ _ _ held | rebuilding _ _ _ _ _ held
  | stopped _ _ _ held =>
    simp only [Empty,resources,Prod.mk.injEq] at held
    simp [held] at heard
  | streaming mine mode started live held =>
    simp only [resources,Prod.mk.injEq] at held
    exact ⟨mode,started,live,by simp [Empty,resources,dropSource,closeSource,held]⟩

theorem degraded_live (status : StreamStatus) (live : s.stopped = false) (quiet : Quiet o react s.statusListeners)
    (resumed : ∀ l ∈ s.statusListeners, Call.stop ∉ react l) : (setStatus o react status s).stopped = false := by
  unfold setStatus
  split
  · exact live
  · obtain ⟨fresh,_,kept⟩ := loop_kept o react (.status status) s.statusListeners
      (s := {s with currentStatus := status}) live quiet resumed
    rw [kept]; exact live

theorem later_tidy (tidy : Tidy o s) (mode : o.mode = .sse) (started : s.started = true)
    (live : s.stopped = false) (rested : Empty s) : Tidy o (rebuildLater o s) := by
  simp only [Empty,resources,Prod.mk.injEq] at rested
  refine ⟨?_,tidy.silent⟩
  refine .rebuilding s.nextId (min (o.backoffBaseMs * 2 ^ s.rebuildAttempts) o.backoffCapMs) mode started live ?_
  simp [resources,rebuildLater,setTimeout,rested]

theorem rebuild_tidy (tidy : Tidy o s) (heard : s.es = some source) (quiet : Quiet o react s.statusListeners)
    (resumed : ∀ l ∈ s.statusListeners, Call.stop ∉ react l) : Tidy o (scheduleRebuild o react s) := by
  obtain ⟨mode,started,live,rested⟩ := sourced_empty tidy heard
  have dropped : Tidy o (dropSource s) := ⟨.idle live rested,tidy.silent⟩
  have after := degraded_live (s := dropSource s) .degraded live quiet resumed
  obtain ⟨held,began,_⟩ := status_live (s := dropSource s) .degraded quiet live after
  exact later_tidy (status_tidy dropped live quiet) mode (began.trans started) after (held.trans rested)

theorem error_tidy (tidy : Tidy o s) (quiet : Quiet o react s.statusListeners)
    (resumed : degrades o closed s = true → ∀ l ∈ s.statusListeners, Call.stop ∉ react l) :
    Tidy o (sseError o react source closed s) := by
  unfold sseError
  split
  · exact tidy
  · rename_i heard
    simp only [Bool.or_eq_true,decide_eq_true_eq,not_or,Bool.not_eq_true,ne_eq,not_not] at heard
    have counted : Tidy o {s with sseErrors := s.sseErrors + 1} :=
      ⟨tidy.phased.same rfl rfl rfl rfl rfl,tidy.silent⟩
    split
    · rename_i gone
      exact rebuild_tidy counted heard.2 quiet (resumed gone)
    · exact status_tidy counted heard.1 quiet

theorem open_tidy (tidy : Tidy o s) (quiet : Quiet o react s.statusListeners) :
    Tidy o (sseOpen o react source s) := by
  unfold sseOpen
  split
  · exact tidy
  · rename_i heard
    simp only [Bool.or_eq_true,decide_eq_true_eq,not_or,Bool.not_eq_true] at heard
    exact status_tidy ⟨tidy.phased.same rfl rfl rfl rfl rfl,tidy.silent⟩ heard.1 quiet

theorem state_tidy (tidy : Tidy o s) (calm : Quiet o react s.snapshotListeners) :
    Tidy o (sseState o react source parsed s) := by
  unfold sseState
  split
  · exact tidy
  · rename_i heard
    simp only [Bool.or_eq_true,decide_eq_true_eq,not_or,Bool.not_eq_true] at heard
    cases parsed with
    | none => exact tidy
    | some snapshot => exact told_tidy (emit_told snapshot heard.1 calm) tidy

theorem advance_tidy (tidy : Tidy o s) (orderly : Orderly o s event)
    (accepted : advance o s event = some after) : Tidy o after := by
  cases event with
  | start visible => cases accepted; exact start_tidy tidy
  | stop => cases accepted; exact stop_tidy tidy
  | pollNow visible => cases accepted; exact pollNow_tidy tidy orderly
  | onSnapshot l =>
    cases accepted
    split
    · exact tidy
    · rename_i live
      exact ⟨tidy.phased.moved rfl rfl rfl (absurd · live),tidy.silent⟩
  | offSnapshot l =>
    cases accepted
    exact ⟨tidy.phased.moved rfl rfl rfl fun halted => by simp [tidy.phased.deaf halted],tidy.silent⟩
  | onStatus l =>
    cases accepted
    split
    · exact tidy
    · rename_i live
      refine ⟨tidy.phased.moved rfl rfl rfl (absurd · live),?_⟩
      intro p member
      rcases List.mem_append.mp member with old | new
      · exact tidy.silent p old
      · simp_all
  | offStatus l =>
    cases accepted
    exact ⟨tidy.phased.moved rfl rfl rfl fun halted => by simp [tidy.phased.deaf halted],tidy.silent⟩
  | timerFired id visible =>
    simp only [advance] at accepted
    split at accepted
    · cases accepted
    · rename_i timer present
      obtain ⟨polled,rebuilt⟩ := fired_tidy visible tidy present
      split at accepted
      · rename_i kind; cases accepted; exact polled kind
      · rename_i kind; cases accepted; exact rebuilt kind
  | fetchFulfilled c snapshot react =>
    simp only [advance] at accepted
    split at accepted
    · cases accepted
      exact fulfilled_tidy ⟨tidy.phased.same rfl rfl rfl rfl rfl,tidy.silent⟩ orderly.1 orderly.2
    · cases accepted
  | fetchRejected c react =>
    simp only [advance] at accepted
    split at accepted
    · cases accepted
      exact rejected_tidy ⟨tidy.phased.same rfl rfl rfl rfl rfl,tidy.silent⟩ orderly
    · cases accepted
  | sseOpen e react => cases accepted; exact open_tidy tidy orderly
  | sseState e parsed react => cases accepted; exact state_tidy tidy orderly
  | sseError e closed react => cases accepted; exact error_tidy tidy orderly.1 orderly.2

theorem orderly_run_sound (o : Options) (events : List Event) (s : State)
    (path : Run (advance o) (Orderly o) {} events s) : Sound s :=
  tidy_sound (path.invariant (Tidy o) (initial_tidy o) fun _ _ _ tidy orderly accepted => advance_tidy tidy orderly accepted)

-- A working board is polled, and the listener of the second snapshot stops the stream.
def stoppingRun : List Event :=
  [.start true,.onSnapshot 7,.fetchFulfilled 0 ⟨["working"]⟩ (fun _ => []),.timerFired 1 true,
    .fetchFulfilled 2 ⟨["idle"]⟩ (fun _ => [.stop])]

theorem stopping_run_sound : ∃ s, s.stopped = true ∧ Run (advance ⟨.poll,3000,15000,3,5000,30000⟩)
    (Orderly ⟨.poll,3000,15000,3,5000,30000⟩) {} stoppingRun s ∧ Sound s := by
  have path : Run (advance ⟨.poll,3000,15000,3,5000,30000⟩) (Orderly ⟨.poll,3000,15000,3,5000,30000⟩) {}
      stoppingRun _ :=
    .cons trivial rfl (.cons trivial rfl (.cons (show Quiet _ _ [] ∧ Quiet _ _ [7] by simp [Quiet]) rfl
      (.cons trivial rfl (.cons (show Quiet _ _ [] ∧ Quiet _ _ [7] by simp [Quiet]) rfl .nil))))
  exact ⟨_,rfl,path,orderly_run_sound _ _ _ path⟩

-- The first poll is still in flight when the page becomes visible again: the tick
-- pollNow schedules is a second chain, the settled fetch overwrites its handle,
-- and stop clears only the newer one.
theorem resumed_run_doubles :
    (∃ s, Run (advance ⟨.poll,3000,15000,3,5000,30000⟩) Any {} [.start true,.pollNow true] s ∧ chains s = 2) ∧
      (∃ s, Run (advance ⟨.poll,3000,15000,3,5000,30000⟩) Any {} [.start true,.pollNow true,
        .fetchFulfilled 0 ⟨[]⟩ (fun _ => []),.stop] s ∧ s.stopped = true ∧ s.timers = [⟨1,.poll,15000⟩]) := by
  refine ⟨⟨_,.cons trivial rfl (.cons trivial rfl .nil),rfl⟩,?_⟩
  exact ⟨_,.cons trivial rfl (.cons trivial rfl (.cons trivial rfl (.cons trivial rfl .nil))),rfl,rfl⟩

end AgentSideCar.StateStream
