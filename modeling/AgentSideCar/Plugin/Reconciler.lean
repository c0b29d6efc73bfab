import AgentSideCar.Library.Runs
import Mathlib.Algebra.Group.Nat.Defs

namespace AgentSideCar.Reconciler
open Runs

inductive TimerKind where | poll | kick | reconnect
  deriving DecidableEq

structure Timer where
  id : Nat
  kind : TimerKind
  delay : Nat
  deriving DecidableEq

structure Options where
  activeMs : Nat := 2000
  idleMs : Nat := 10000
  debounceMs : Nat := 200
  reconnectMinMs : Nat := 1000
  reconnectMaxMs : Nat := 30000
  failureBackoffMs : Nat := 250

-- The fields of the class, then the world it acts on: the timers that will still
-- fire, the subscriptions whose socket is open, those closed whose onClose is
-- still a microtask, and the number of status requests not yet answered.
structure State where
  running : Bool := false
  backoffMs : Nat
  failStreak : Nat := 0
  pollTimer : Option Timer := none
  kickTimer : Option Timer := none
  reconnectTimer : Option Timer := none
  subscription : Option Nat := none
  reconcileInFlight : Bool := false
  reconcileQueued : Bool := false
  timers : List Timer := []
  live : List Nat := []
  closing : List Nat := []
  requests : Nat := 0
  nextId : Nat := 0

def initial (o : Options) : State := {backoffMs := o.reconnectMinMs}

def State.handle (s : State) : TimerKind → Option Timer
  | .poll => s.pollTimer
  | .kick => s.kickTimer
  | .reconnect => s.reconnectTimer

def clearTimeout (handle : Option Timer) (s : State) : State :=
  {s with timers := s.timers.filter fun t => some t ≠ handle}

def setTimeout (kind : TimerKind) (delay : Nat) (s : State) : State :=
  {s with timers := s.timers ++ [⟨s.nextId,kind,delay⟩],nextId := s.nextId + 1}

-- finish() of a subscription: only the first call does anything, and onClose is deferred.
def close (id : Nat) (s : State) : State :=
  if id ∈ s.live then {s with live := s.live.filter (· ≠ id),closing := s.closing ++ [id]} else s

def openSubscription (s : State) : State :=
  if !s.running then s
  else {s with subscription := some s.nextId,live := s.live ++ [s.nextId],nextId := s.nextId + 1}

def reconcileNow (s : State) : State :=
  if !s.running then s
  else if s.reconcileInFlight then {s with reconcileQueued := true}
  else {s with reconcileInFlight := true,requests := s.requests + 1}

def start (o : Options) (s : State) : State :=
  if s.running then s
  else reconcileNow (openSubscription {s with running := true,backoffMs := o.reconnectMinMs,failStreak := 0})

def halt (s : State) : State :=
  {clearTimeout s.reconnectTimer (clearTimeout s.kickTimer (clearTimeout s.pollTimer s)) with
    running := false,pollTimer := none,kickTimer := none,reconnectTimer := none,subscription := none}

def closeHeld (subscription : Option Nat) (s : State) : State :=
  match subscription with
  | none => s
  | some id => close id s

def stop (s : State) : State := if !s.running then s else closeHeld s.subscription (halt s)

def scheduleNext (o : Options) (working : Bool) (s : State) : State :=
  let cleared := clearTimeout s.pollTimer s
  let cadence := if working then o.activeMs else o.idleMs
  let delay := if s.failStreak > 0 then min (o.failureBackoffMs * 2 ^ (s.failStreak - 1)) cadence else cadence
  {setTimeout .poll delay cleared with pollTimer := some ⟨s.nextId,.poll,delay⟩}

def kick (o : Options) (s : State) : State :=
  if !s.running || s.kickTimer.isSome then s
  else {setTimeout .kick o.debounceMs s with kickTimer := some ⟨s.nextId,.kick,o.debounceMs⟩}

-- A store method runs listeners; they may call back into the reconciler, and an
-- exception of theirs comes out of the store method.
inductive Call where | start | stop | reconcileNow
  deriving DecidableEq
structure Reaction where
  calls : List Call := []
  throws : Bool := false

def apply (o : Options) (s : State) : Call → State
  | .start => Reconciler.start o s
  | .stop => Reconciler.stop s
  | .reconcileNow => Reconciler.reconcileNow s

def react (o : Options) (calls : List Call) (s : State) : State := calls.foldl (apply o) s

def onReady (o : Options) (health : Reaction) (s : State) : State :=
  if !s.running then s else react o health.calls {s with backoffMs := o.reconnectMinMs}

def onEvent (o : Options) (applied : Reaction) (s : State) : State :=
  if !s.running then s
  else
    let folded := react o applied.calls s
    if applied.throws then folded else kick o folded

def scheduleReconnect (o : Options) (s : State) : State :=
  {setTimeout .reconnect s.backoffMs {s with backoffMs := min (s.backoffMs * 2) o.reconnectMaxMs} with
    reconnectTimer := some ⟨s.nextId,.reconnect,s.backoffMs⟩}

def onClose (o : Options) (health : Reaction) (s : State) : State :=
  if !s.running then {s with subscription := none}
  else
    let degraded := react o health.calls {s with subscription := none}
    if health.throws then degraded else scheduleReconnect o degraded

-- What `status` answered: null, or a snapshot whose two store calls react so.
structure Applied where
  snapshot : Reaction := {}
  archived : Reaction := {}

-- The body of the try block; true where it throws.
def applySnapshot (o : Options) (answer : Option Applied) (s : State) : State × Bool :=
  match answer with
  | none => ({s with failStreak := s.failStreak + 1},false)
  | some applied =>
    if !s.running then ({s with failStreak := 0},false)
    else
      let shown := react o applied.snapshot.calls {s with failStreak := 0}
      if applied.snapshot.throws then (shown,true)
      else (react o applied.archived.calls shown,applied.archived.throws)

def settle (s : State) : State := {s with reconcileInFlight := false,requests := s.requests - 1}

-- `working` is what hasWorkingSessions answers when the next poll is scheduled.
def afterSettled (o : Options) (working : Bool) (s : State) : State :=
  if !s.running then s
  else if s.reconcileQueued then reconcileNow {s with reconcileQueued := false}
  else scheduleNext o working s

def statusSettled (o : Options) (answer : Option Applied) (working : Bool) (s : State) : State :=
  let tried := applySnapshot o answer s
  if tried.2 then settle tried.1 else afterSettled o working (settle tried.1)

def fire (s : State) (t : Timer) : State :=
  let fired := clearTimeout (some t) s
  match t.kind with
  | .poll => reconcileNow {fired with pollTimer := none}
  | .kick => reconcileNow {fired with kickTimer := none}
  | .reconnect => openSubscription {fired with reconnectTimer := none}

inductive Event where
  | call (c : Call)
  | ready (id : Nat) (health : Reaction)
  | event (id : Nat) (applied : Reaction)
  | drop (id : Nat)
  | socketClosed (id : Nat)
  | closeDelivered (id : Nat) (health : Reaction)
  | statusSettled (answer : Option Applied) (working : Bool)
  | timerFired (t : Timer)

-- A subscription speaks while its socket is open; its onClose runs once, later.
def advance (o : Options) (s : State) : Event → Option State
  | .call c => some (apply o s c)
  | .ready id health => if id ∈ s.live then some (onReady o health s) else none
  | .event id applied => if id ∈ s.live then some (onEvent o applied s) else none
  | .drop id => if id ∈ s.live then some (kick o s) else none
  | .socketClosed id => if id ∈ s.live then some (close id s) else none
  | .closeDelivered id health =>
    if id ∈ s.closing then some (onClose o health {s with closing := s.closing.erase id}) else none
  | .statusSettled answer working => if 0 < s.requests then some (statusSettled o answer working s) else none
  | .timerFired t => if t ∈ s.timers then some (fire s t) else none

structure Sound (s : State) : Prop where
  single : s.live.length ≤ 1
  released : s.running = false → s.live = []
  oneRequest : s.requests ≤ 1
  polling : s.running = true → s.requests = 0 → ∃ t ∈ s.timers, t.kind = .poll ∨ t.kind = .reconnect

-- A start finds no close callback still to come and no reconnect left over.
def Ready (s : State) : Call → Prop
  | .start => s.running = true ∨ s.closing = [] ∧ ∀ t ∈ s.timers, t.kind ≠ .reconnect
  | _ => True

def Prompted (o : Options) : State → List Call → Prop
  | _,[] => True
  | s,c :: rest => Ready s c ∧ Prompted o (apply o s c) rest

-- An exception that leaves the snapshot half applied must find the next poll scheduled.
def Spared (s : State) (calls : List Call) (throws : Bool) : Prop :=
  throws = true → s.pollTimer.isSome = true ∧ Call.stop ∉ calls

def Orderly (o : Options) (s : State) : Event → Prop
  | .call c => Ready s c
  | .ready _ health => s.running = true → Prompted o {s with backoffMs := o.reconnectMinMs} health.calls
  | .event _ applied => s.running = true → Prompted o s applied.calls
  | .closeDelivered id health => s.running = true →
      Prompted o {s with closing := s.closing.erase id,subscription := none} health.calls ∧
        ¬ [Call.stop,.start].Sublist health.calls
  | .statusSettled (some applied) _ => s.running = true →
      Prompted o {s with failStreak := 0} (applied.snapshot.calls ++ applied.archived.calls) ∧
        Spared s (applied.snapshot.calls ++ applied.archived.calls)
          (applied.snapshot.throws || applied.archived.throws)
  | _ => True

-- Every scheduled timer is the one its handle names, and every handle names one.
structure Owned (s : State) : Prop where
  held : ∀ t ∈ s.timers, s.handle t.kind = some t
  scheduled : ∀ kind t, s.handle kind = some t → t ∈ s.timers ∧ t.kind = kind

-- The subscription field is right about the world in all four phases. What would
-- break it is a close callback that arrives while another subscription is live.
inductive Phased (s : State) : Prop where
  | halted : s.running = false → s.subscription = none → s.live = [] → s.pollTimer = none →
      s.kickTimer = none → Phased s
  | connected (id : Nat) : s.running = true → s.subscription = some id → s.live = [id] → s.closing = [] →
      s.reconnectTimer = none → Phased s
  | dropped (id : Nat) : s.running = true → s.subscription = some id → s.live = [] → s.closing = [id] →
      s.reconnectTimer = none → Phased s
  | waiting : s.running = true → s.subscription = none → s.live = [] → s.closing = [] → Phased s

structure Kept (s : State) : Prop where
  phased : Phased s
  owned : Owned s
  flight : s.requests = if s.reconcileInFlight then 1 else 0

structure Steady (s : State) : Prop extends Kept s where
  polled : s.running = true → s.reconcileInFlight = false → s.pollTimer.isSome = true

theorem steady_sound (steady : Steady s) : Sound s := by
  refine ⟨?_,?_,?_,?_⟩
  · cases steady.phased <;> simp_all
  · intro off
    cases steady.phased <;> simp_all
  · rw [steady.flight]; split <;> omega
  · intro on none
    have idle : s.reconcileInFlight = false := by
      cases busy : s.reconcileInFlight with
      | false => rfl
      | true => simp [steady.flight,busy] at none
    obtain ⟨t,poll⟩ := Option.isSome_iff_exists.mp (steady.polled on idle)
    obtain ⟨present,kind⟩ := steady.owned.scheduled .poll t poll
    exact ⟨t,present,.inl kind⟩

theorem initial_steady (o : Options) : Steady (initial o) := by
  refine ⟨⟨.halted rfl rfl rfl rfl rfl,⟨nofun,?_⟩,rfl⟩,nofun⟩
  intro kind t handle
  cases kind <;> cases handle

theorem cleared (owned : Owned s) (kind : TimerKind) (t : Timer) :
    t ∈ (clearTimeout (s.handle kind) s).timers ↔ t ∈ s.timers ∧ t.kind ≠ kind := by
  simp only [clearTimeout,List.mem_filter,decide_eq_true_eq]
  refine and_congr_right fun present => not_congr ?_
  constructor
  · intro same; exact (owned.scheduled kind t same.symm).2
  · intro same; subst same; exact (owned.held t present).symm

theorem Owned.released (owned : Owned s) (kind : TimerKind) (timers : after.timers = (clearTimeout (s.handle kind) s).timers)
    (gone : after.handle kind = none) (others : ∀ other, other ≠ kind → after.handle other = s.handle other) :
    Owned after := by
  refine ⟨?_,?_⟩
  · intro t present
    rw [timers,cleared owned] at present
    rw [others _ present.2]
    exact owned.held t present.1
  · intro other t handle
    by_cases same : other = kind
    · simp [same,gone] at handle
    · rw [others other same] at handle
      obtain ⟨present,kinded⟩ := owned.scheduled other t handle
      exact ⟨by rw [timers,cleared owned]; exact ⟨present,kinded ▸ same⟩,kinded⟩

theorem Owned.same (owned : Owned s) (timers : after.timers = s.timers)
    (handles : ∀ kind, after.handle kind = s.handle kind) : Owned after := by
  refine ⟨?_,?_⟩
  · intro t present; rw [handles]; exact owned.held t (timers ▸ present)
  · intro kind t handle; rw [timers]; exact owned.scheduled kind t (handles kind ▸ handle)

theorem Owned.scheduledNew (owned : Owned s) (t : Timer) (free : s.handle t.kind = none)
    (timers : after.timers = s.timers ++ [t]) (mine : after.handle t.kind = some t)
    (others : ∀ other, other ≠ t.kind → after.handle other = s.handle other) : Owned after := by
  refine ⟨?_,?_⟩
  · intro u present
    rw [timers] at present
    rcases List.mem_append.mp present with old | new
    · have differs : u.kind ≠ t.kind := by
        intro same
        have := owned.held u old
        rw [same,free] at this
        cases this
      rw [others _ differs]; exact owned.held u old
    · cases List.mem_singleton.mp new; exact mine
  · intro kind u handle
    by_cases same : kind = t.kind
    · subst same
      rw [mine] at handle
      cases handle
      exact ⟨by simp [timers],rfl⟩
    · rw [others kind same] at handle
      obtain ⟨present,kinded⟩ := owned.scheduled kind u handle
      exact ⟨by simp [timers,present],kinded⟩

theorem Phased.quiet (phased : Phased s) (off : s.running = false) :
    s.pollTimer = none ∧ s.kickTimer = none := by
  cases phased with
  | halted _ _ _ poll kicked => exact ⟨poll,kicked⟩
  | connected _ on | dropped _ on | waiting on => simp [on] at off

theorem Phased.moved (phased : Phased s) (running : after.running = s.running)
    (subscription : after.subscription = s.subscription) (live : after.live = s.live)
    (closing : after.closing = s.closing) (reconnect : after.reconnectTimer = s.reconnectTimer)
    (quiet : s.running = false → after.pollTimer = none ∧ after.kickTimer = none) : Phased after := by
  cases phased with
  | halted off sub none' _ _ =>
    obtain ⟨poll,kicked⟩ := quiet off
    exact .halted (running.trans off) (subscription.trans sub) (live.trans none') poll kicked
  | connected id on sub open' closed timer =>
    exact .connected id (running.trans on) (subscription.trans sub) (live.trans open') (closing.trans closed)
      (reconnect.trans timer)
  | dropped id on sub open' closed timer =>
    exact .dropped id (running.trans on) (subscription.trans sub) (live.trans open') (closing.trans closed)
      (reconnect.trans timer)
  | waiting on sub open' closed =>
    exact .waiting (running.trans on) (subscription.trans sub) (live.trans open') (closing.trans closed)

theorem Phased.same (phased : Phased s) (running : after.running = s.running)
    (subscription : after.subscription = s.subscription) (live : after.live = s.live)
    (closing : after.closing = s.closing) (handles : ∀ kind, after.handle kind = s.handle kind) : Phased after :=
  phased.moved running subscription live closing (handles .reconnect) fun off =>
    ⟨(handles .poll).trans (phased.quiet off).1,(handles .kick).trans (phased.quiet off).2⟩

theorem Kept.same (kept : Kept s) (running : after.running = s.running)
    (subscription : after.subscription = s.subscription) (live : after.live = s.live)
    (closing : after.closing = s.closing) (handles : ∀ kind, after.handle kind = s.handle kind)
    (timers : after.timers = s.timers) (flight : after.requests = if after.reconcileInFlight then 1 else 0) :
    Kept after :=
  ⟨kept.phased.same running subscription live closing handles,kept.owned.same timers handles,flight⟩

theorem reconcileNow_steady (kept : Kept s) : Steady (reconcileNow s) := by
  unfold reconcileNow
  cases on : s.running with
  | false => exact ⟨by simpa [on] using kept,by simp [on]⟩
  | true =>
    cases busy : s.reconcileInFlight with
    | true =>
      have flight := kept.flight
      rw [busy] at flight
      exact ⟨kept.same on.symm rfl rfl rfl (fun kind => by cases kind <;> rfl) rfl flight,by simp⟩
    | false =>
      have flight := kept.flight
      rw [busy] at flight
      refine ⟨kept.same on.symm rfl rfl rfl (fun kind => by cases kind <;> rfl) rfl ?_,by simp⟩
      simpa using flight

theorem start_steady (steady : Steady s) (ready : Ready s .start) : Steady (start o s) := by
  cases on : s.running with
  | true => simpa [start,on] using steady
  | false =>
    obtain ⟨closing,unscheduled⟩ : s.closing = [] ∧ ∀ t ∈ s.timers, t.kind ≠ .reconnect := by
      simpa [Ready,on] using ready
    have reconnect : s.reconnectTimer = none := by
      cases timer : s.reconnectTimer with
      | none => rfl
      | some t =>
        obtain ⟨present,kind⟩ := steady.owned.scheduled .reconnect t timer
        exact absurd kind (unscheduled t present)
    simp only [start,on,Bool.false_eq_true,if_false]
    refine reconcileNow_steady ⟨?_,steady.owned.same rfl fun kind => by cases kind <;> rfl,steady.flight⟩
    cases steady.phased with
    | halted _ sub live _ _ =>
      exact .connected s.nextId rfl rfl (by simp [openSubscription,live]) (by simp [openSubscription,closing])
        (by simp [openSubscription,reconnect])
    | connected _ up | dropped _ up | waiting up => simp [on] at up

theorem stop_off (off : s.running = false) : stop s = s := by simp [stop,off]

theorem stop_on (on : s.running = true) : stop s = closeHeld s.subscription (halt s) := by simp [stop,on]

theorem closeHeld_frame (held : Option Nat) (s : State) :
    ∃ live closing, closeHeld held s = {s with live := live,closing := closing} := by
  cases held with
  | none => exact ⟨s.live,s.closing,rfl⟩
  | some id =>
    by_cases present : id ∈ s.live
    · exact ⟨_,_,if_pos present⟩
    · exact ⟨s.live,s.closing,if_neg present⟩

theorem stop_halts (s : State) : (stop s).running = false := by
  cases on : s.running with
  | false => rw [stop_off on]; exact on
  | true =>
    obtain ⟨_,_,closed⟩ := closeHeld_frame s.subscription (halt s)
    rw [stop_on on,closed]; rfl

theorem halt_cleared (owned : Owned s) : (halt s).timers = [] := by
  refine List.eq_nil_iff_forall_not_mem.mpr fun t present => ?_
  simp only [halt,clearTimeout,List.mem_filter,decide_eq_true_eq] at present
  obtain ⟨⟨⟨present,poll⟩,kicked⟩,reconnect⟩ := present
  have held := owned.held t present
  cases kind : t.kind <;> rw [kind] at held <;> exact absurd held.symm (by assumption)

theorem stop_steady (steady : Steady s) : Steady (stop s) := by
  cases on : s.running with
  | false => rw [stop_off on]; exact steady
  | true =>
    obtain ⟨live,closing,closed⟩ := closeHeld_frame s.subscription (halt s)
    have silent : ∀ kind, (stop s).handle kind = none := by
      intro kind; rw [stop_on on,closed]; cases kind <;> rfl
    have dead : (stop s).live = [] := by
      rw [stop_on on]
      cases steady.phased with
      | halted off => simp [on] at off
      | connected id _ sub live => simp [sub,closeHeld,close,halt,clearTimeout,live]
      | dropped id _ sub live => simp [sub,closeHeld,close,halt,clearTimeout,live]
      | waiting _ sub live => simp [sub,closeHeld,halt,clearTimeout,live]
    refine ⟨⟨?_,⟨?_,by simp [silent]⟩,?_⟩,fun up => absurd up (by simp [stop_halts])⟩
    · exact .halted (stop_halts s) (by rw [stop_on on,closed]; rfl) dead (silent .poll) (silent .kick)
    · simp [stop_on on,closed,halt_cleared steady.owned]
    · rw [stop_on on,closed]; exact steady.flight

theorem apply_steady (steady : Steady s) (ready : Ready s c) : Steady (apply o s c) := by
  cases c with
  | start => exact start_steady steady ready
  | stop => exact stop_steady steady
  | reconcileNow => exact reconcileNow_steady steady.toKept

theorem react_steady (steady : Steady s) (prompted : Prompted o s calls) : Steady (react o calls s) := by
  induction calls generalizing s with
  | nil => exact steady
  | cons c rest ih => exact ih (apply_steady steady prompted.1) prompted.2

theorem prompted_append : Prompted o s (first ++ second) ↔
    Prompted o s first ∧ Prompted o (react o first s) second := by
  induction first generalizing s with
  | nil => simp [Prompted,react]
  | cons c rest ih => simp [Prompted,react,ih,and_assoc]

theorem kick_steady (steady : Steady s) : Steady (kick o s) := by
  unfold kick
  split
  · exact steady
  · rename_i free
    simp only [Bool.or_eq_true,Bool.not_eq_true',not_or,Bool.not_eq_false,Bool.not_eq_true,
      Option.isSome_eq_false_iff,Option.isNone_iff_eq_none] at free
    refine ⟨⟨?_,?_,steady.flight⟩,steady.polled⟩
    · exact steady.phased.moved rfl rfl rfl rfl rfl fun off => by simp [free.1] at off
    · refine steady.owned.scheduledNew ⟨s.nextId,.kick,o.debounceMs⟩ free.2 rfl rfl ?_
      intro other differs
      cases other <;> first | rfl | exact absurd rfl differs

theorem ready_steady (steady : Steady s)
    (prompted : s.running = true → Prompted o {s with backoffMs := o.reconnectMinMs} health.calls) :
    Steady (onReady o health s) := by
  unfold onReady
  split
  · exact steady
  · rename_i on
    refine react_steady ⟨?_,steady.polled⟩ (prompted (by simpa using on))
    exact steady.toKept.same rfl rfl rfl rfl (fun kind => by cases kind <;> rfl) rfl steady.flight

theorem event_steady (steady : Steady s) (prompted : s.running = true → Prompted o s applied.calls) :
    Steady (onEvent o applied s) := by
  unfold onEvent
  cases on : s.running with
  | false => simpa [on] using steady
  | true =>
    have folded := react_steady steady (prompted on)
    cases applied.throws with
    | true => simpa using folded
    | false => simpa using kick_steady folded

theorem closed_steady {id : Nat} (steady : Steady s) (open' : id ∈ s.live) : Steady (close id s) := by
  rw [close,if_pos open']
  refine ⟨⟨?_,steady.owned.same rfl fun kind => by cases kind <;> rfl,steady.flight⟩,steady.polled⟩
  cases steady.phased with
  | halted _ _ live | dropped _ _ _ live | waiting _ _ live => simp [live] at open'
  | connected mine on sub live closing timer =>
    rw [live,List.mem_singleton] at open'
    subst open'
    exact .dropped id on sub (by simp [live]) (by simp [closing]) timer

-- A degraded listener may stop the reconciler but not start it again, so the
-- stream it was told about stays the last one.
theorem react_unsubscribed (running : s.running = true ∨ Call.start ∉ calls)
    (once : ¬ [Call.stop,.start].Sublist calls) (sub : s.subscription = none) (timer : s.reconnectTimer = none) :
    (react o calls s).subscription = none ∧ (react o calls s).reconnectTimer = none := by
  induction calls generalizing s with
  | nil => exact ⟨sub,timer⟩
  | cons c rest ih =>
    have later : ¬ [Call.stop,.start].Sublist rest := fun inside => once (inside.cons c)
    have kept : s.running = true ∨ Call.start ∉ rest :=
      running.imp id fun absent inside => absent (List.mem_cons_of_mem _ inside)
    cases c with
    | start =>
      have on : s.running = true := running.resolve_right (by simp)
      have same : apply o s .start = s := by simp [apply,start,on]
      rw [show react o (.start :: rest) s = react o rest (apply o s .start) from rfl,same]
      exact ih kept later sub timer
    | stop =>
      have absent : Call.start ∉ rest := by
        intro inside
        exact once (.cons_cons _ (List.singleton_sublist.mpr inside))
      refine ih (s := stop s) (.inr absent) later ?_ ?_
      · cases on : s.running with
        | false => rw [stop_off on]; exact sub
        | true => obtain ⟨_,_,closed⟩ := closeHeld_frame s.subscription (halt s); rw [stop_on on,closed]; rfl
      · cases on : s.running with
        | false => rw [stop_off on]; exact timer
        | true => obtain ⟨_,_,closed⟩ := closeHeld_frame s.subscription (halt s); rw [stop_on on,closed]; rfl
    | reconcileNow =>
      refine ih (s := reconcileNow s) ?_ later ?_ ?_ <;> unfold reconcileNow <;> split <;> try split
      all_goals first | exact kept | exact sub | exact timer

theorem reconnect_steady (steady : Steady s) (sub : s.subscription = none) (timer : s.reconnectTimer = none) :
    Steady (scheduleReconnect o s) := by
  refine ⟨⟨?_,?_,steady.flight⟩,steady.polled⟩
  · cases steady.phased with
    | halted off sub live poll kicked => exact .halted off sub live poll kicked
    | connected id _ mine | dropped id _ mine => simp [sub] at mine
    | waiting on sub live closing => exact .waiting on sub live closing
  · refine steady.owned.scheduledNew ⟨s.nextId,.reconnect,s.backoffMs⟩ timer rfl rfl ?_
    intro other differs
    cases other <;> first | rfl | exact absurd rfl differs

theorem delivered_steady {id : Nat} (steady : Steady s) (pending : id ∈ s.closing)
    (fits : s.running = true → Prompted o {s with closing := s.closing.erase id,subscription := none} health.calls ∧
      ¬ [Call.stop,.start].Sublist health.calls) :
    Steady (onClose o health {s with closing := s.closing.erase id}) := by
  have handles : ∀ kind, State.handle {s with closing := s.closing.erase id,subscription := none} kind =
    s.handle kind := fun kind => by cases kind <;> rfl
  unfold onClose
  split
  · rename_i off
    refine ⟨⟨?_,steady.owned.same rfl handles,steady.flight⟩,steady.polled⟩
    cases steady.phased with
    | halted off _ live poll kicked => exact .halted off rfl live poll kicked
    | connected _ on | dropped _ on | waiting on => simp [on] at off
  · rename_i on
    have on : s.running = true := by simpa using on
    obtain ⟨prompted,once⟩ := fits on
    obtain ⟨closed,timer,live⟩ : s.closing = [id] ∧ s.reconnectTimer = none ∧ s.live = [] := by
      cases steady.phased with
      | halted off => simp [on] at off
      | connected _ _ _ _ closing | waiting _ _ _ closing => simp [closing] at pending
      | dropped mine _ _ live closing timer =>
        rw [closing,List.mem_singleton] at pending
        subst pending
        exact ⟨closing,timer,live⟩
    have degraded : Steady {s with closing := s.closing.erase id,subscription := none} :=
      ⟨⟨.waiting on rfl live (by simp [closed]),steady.owned.same rfl handles,steady.flight⟩,steady.polled⟩
    have told := react_steady degraded prompted
    obtain ⟨sub,free⟩ := react_unsubscribed (o := o)
      (s := {s with closing := s.closing.erase id,subscription := none}) (.inl on) once rfl timer
    cases health.throws with
    | true => exact told
    | false => exact reconnect_steady told sub free

theorem schedule_steady (kept : Kept s) (on : s.running = true) : Steady (scheduleNext o working s) := by
  have freed : Owned {clearTimeout s.pollTimer s with pollTimer := none} := by
    refine kept.owned.released .poll rfl rfl ?_
    intro other differs
    cases other <;> first | rfl | exact absurd rfl differs
  refine ⟨⟨?_,?_,kept.flight⟩,fun _ _ => rfl⟩
  · exact kept.phased.moved rfl rfl rfl rfl rfl fun off => by simp [on] at off
  · refine freed.scheduledNew ⟨s.nextId,.poll,_⟩ rfl rfl rfl ?_
    intro other differs
    cases other <;> first | rfl | exact absurd rfl differs

theorem after_steady (kept : Kept s) : Steady (afterSettled o working s) := by
  unfold afterSettled
  split
  · rename_i off
    exact ⟨kept,fun on => absurd on (by simpa using off)⟩
  · rename_i on
    split
    · exact reconcileNow_steady (kept.same rfl rfl rfl rfl (fun kind => by cases kind <;> rfl) rfl kept.flight)
    · exact schedule_steady kept (by simpa using on)

theorem settle_kept (kept : Kept s) (busy : s.reconcileInFlight = true) : Kept (settle s) := by
  refine kept.same rfl rfl rfl rfl (fun kind => by cases kind <;> rfl) rfl ?_
  simp [settle,kept.flight,busy]

theorem apply_busy (busy : s.reconcileInFlight = true) : (apply o s c).reconcileInFlight = true := by
  cases c with
  | start =>
    cases on : s.running with
    | true => simpa [apply,start,on] using busy
    | false => simp [apply,start,on,openSubscription,reconcileNow,busy]
  | stop =>
    cases on : s.running with
    | false => simpa [apply,stop_off on] using busy
    | true =>
      obtain ⟨_,_,closed⟩ := closeHeld_frame s.subscription (halt s)
      simp only [apply,stop_on on,closed]; exact busy
  | reconcileNow => simp only [apply,reconcileNow]; split <;> simp [busy]

theorem react_busy (calls : List Call) (busy : s.reconcileInFlight = true) : (react o calls s).reconcileInFlight = true := by
  induction calls generalizing s with
  | nil => exact busy
  | cons c rest ih => exact ih (apply_busy busy)

theorem react_poll (calls : List Call) (on : s.running = true) (busy : s.reconcileInFlight = true) (unstopped : Call.stop ∉ calls) :
    (react o calls s).pollTimer = s.pollTimer := by
  induction calls generalizing s with
  | nil => rfl
  | cons c rest ih =>
    have later : Call.stop ∉ rest := fun inside => unstopped (List.mem_cons_of_mem _ inside)
    cases c with
    | stop => simp at unstopped
    | start =>
      have same : apply o s .start = s := by simp [apply,start,on]
      show (react o rest (apply o s .start)).pollTimer = _
      rw [same]; exact ih on busy later
    | reconcileNow =>
      have queued : apply o s .reconcileNow = {s with reconcileQueued := true} := by
        simp [apply,reconcileNow,on,busy]
      show (react o rest (apply o s .reconcileNow)).pollTimer = _
      rw [queued]; exact ih on busy later

theorem settled_steady (steady : Steady s) (pending : 0 < s.requests)
    (fits : Orderly o s (.statusSettled answer working)) : Steady (statusSettled o answer working s) := by
  have busy : s.reconcileInFlight = true := by
    cases busy : s.reconcileInFlight with
    | true => rfl
    | false => simp [steady.flight,busy] at pending
  have streak : ∀ n, Steady {s with failStreak := n} := fun n =>
    ⟨steady.toKept.same rfl rfl rfl rfl (fun kind => by cases kind <;> rfl) rfl steady.flight,steady.polled⟩
  cases answer with
  | none => exact after_steady (settle_kept (streak _).toKept busy)
  | some applied =>
    cases on : s.running with
    | false =>
      simp only [statusSettled,applySnapshot,on,Bool.not_false,if_true,Bool.false_eq_true,if_false]
      exact after_steady (settle_kept (by simpa [on] using (streak 0).toKept) busy)
    | true =>
      obtain ⟨prompted,spared⟩ := fits on
      obtain ⟨first,second⟩ := prompted_append.mp prompted
      have shown := react_steady (streak 0) first
      have still := react_busy (o := o) applied.snapshot.calls (s := {s with failStreak := 0}) busy
      have archived := react_steady shown second
      -- A throw returns with the poll that was scheduled before it.
      have thrown : ∀ calls, Steady (react o calls {s with failStreak := 0}) → Call.stop ∉ calls →
          s.pollTimer.isSome = true → Steady (settle (react o calls {s with failStreak := 0})) := by
        intro calls told unstopped scheduled
        have busy := react_busy (o := o) calls (s := {s with failStreak := 0}) busy
        refine ⟨settle_kept told.toKept busy,fun _ _ => ?_⟩
        have same := react_poll (o := o) calls (s := {s with failStreak := 0}) on
          (by assumption) unstopped
        exact (congrArg Option.isSome same).trans scheduled
      have joined : react o applied.archived.calls (react o applied.snapshot.calls {s with failStreak := 0}) =
        react o (applied.snapshot.calls ++ applied.archived.calls) {s with failStreak := 0} := by
        simp [react]
      cases early : applied.snapshot.throws with
      | true =>
        obtain ⟨scheduled,unstopped⟩ := spared (by simp [early])
        have settled := thrown applied.snapshot.calls shown
          (fun inside => unstopped (List.mem_append_left _ inside)) scheduled
        simpa [statusSettled,applySnapshot,on,early] using settled
      | false =>
        cases late : applied.archived.throws with
        | true =>
          obtain ⟨scheduled,unstopped⟩ := spared (by simp [late])
          have settled := thrown _ (joined ▸ archived) unstopped scheduled
          rw [← joined] at settled
          simpa [statusSettled,applySnapshot,on,early,late] using settled
        | false =>
          have settled : Steady (afterSettled o working _) := after_steady
            (settle_kept archived.toKept (react_busy _ still))
          simpa [statusSettled,applySnapshot,on,early,late] using settled

theorem fire_steady (steady : Steady s) (present : t ∈ s.timers) : Steady (fire s t) := by
  have held := steady.owned.held t present
  unfold fire
  cases kind : t.kind with
  | poll =>
    rw [kind] at held
    refine reconcileNow_steady ⟨?_,?_,steady.flight⟩
    · exact steady.phased.moved rfl rfl rfl rfl rfl fun off => ⟨rfl,(steady.phased.quiet off).2⟩
    · refine steady.owned.released .poll (by rw [held]) rfl ?_
      intro other differs
      cases other <;> first | rfl | exact absurd rfl differs
  | kick =>
    rw [kind] at held
    refine reconcileNow_steady ⟨?_,?_,steady.flight⟩
    · exact steady.phased.moved rfl rfl rfl rfl rfl fun off => ⟨(steady.phased.quiet off).1,rfl⟩
    · refine steady.owned.released .kick (by rw [held]) rfl ?_
      intro other differs
      cases other <;> first | rfl | exact absurd rfl differs
  | reconnect =>
    rw [kind] at held
    have owned : Owned {clearTimeout (some t) s with reconnectTimer := none} := by
      refine steady.owned.released .reconnect (by rw [held]) rfl ?_
      intro other differs
      cases other <;> first | rfl | exact absurd rfl differs
    simp only [openSubscription]
    split
    · rename_i off
      refine ⟨⟨?_,owned,steady.flight⟩,steady.polled⟩
      cases steady.phased with
      | halted off sub live poll kicked => exact .halted off sub live poll kicked
      | connected _ on | dropped _ on | waiting on => simp [clearTimeout,on] at off
    · rename_i on
      refine ⟨⟨?_,owned.same rfl fun kind => by cases kind <;> rfl,steady.flight⟩,steady.polled⟩
      cases steady.phased with
      | halted off => simp [clearTimeout,off] at on
      | connected _ _ _ _ _ timer | dropped _ _ _ _ _ timer => simp [State.handle,timer] at held
      | waiting on sub live closing =>
        exact .connected s.nextId on rfl (by simp [clearTimeout,live]) closing rfl

theorem advance_steady (steady : Steady s) (orderly : Orderly o s event)
    (accepted : advance o s event = some after) : Steady after := by
  cases event with
  | call c => cases accepted; exact apply_steady steady orderly
  | ready id health =>
    simp only [advance] at accepted
    split at accepted <;> cases accepted
    exact ready_steady steady orderly
  | event id applied =>
    simp only [advance] at accepted
    split at accepted <;> cases accepted
    exact event_steady steady orderly
  | drop id =>
    simp only [advance] at accepted
    split at accepted <;> cases accepted
    exact kick_steady steady
  | socketClosed id =>
    simp only [advance] at accepted
    split at accepted <;> cases accepted
    exact closed_steady steady (by assumption)
  | closeDelivered id health =>
    simp only [advance] at accepted
    split at accepted <;> cases accepted
    exact delivered_steady steady (by assumption) orderly
  | statusSettled answer working =>
    simp only [advance] at accepted
    split at accepted <;> cases accepted
    exact settled_steady steady (by assumption) orderly
  | timerFired t =>
    simp only [advance] at accepted
    split at accepted <;> cases accepted
    exact fire_steady steady (by assumption)

theorem orderly_run_polls (o : Options) (events : List Event) (s : State)
    (path : Run (advance o) (Orderly o) (initial o) events s) : Sound s :=
  steady_sound (path.invariant Steady (initial_steady o) fun _ _ _ steady orderly accepted =>
    advance_steady steady orderly accepted)

-- The stream drops, a degraded listener asks for a reconcile, the daemon is away
-- for one poll, the reconnect fires, and the reconciler is stopped.
def droppedRun : List Event :=
  [.call .start,.ready 0 {},.event 0 {},.statusSettled (some {}) true,.socketClosed 0,
    .closeDelivered 0 {calls := [.reconcileNow]},.statusSettled none false,
    .timerFired ⟨3,.reconnect,1000⟩,.call .stop]

theorem dropped_run_polls : ∃ s, s.live = [] ∧ Run (advance {}) (Orderly {}) (initial {}) droppedRun s ∧ Sound s := by
  have path : Run (advance {}) (Orderly {}) (initial {}) droppedRun _ :=
    .cons (.inr ⟨rfl,nofun⟩) rfl (.cons (fun _ => trivial) rfl (.cons (fun _ => trivial) rfl
      (.cons (fun _ => ⟨trivial,nofun⟩) rfl (.cons trivial rfl (.cons (fun _ => ⟨⟨trivial,trivial⟩,by decide⟩) rfl
        (.cons trivial rfl (.cons trivial rfl (.cons trivial rfl .nil))))))))
  exact ⟨_,rfl,path,orderly_run_polls {} _ _ path⟩

-- Stopped and started in one tick: the first subscription's onClose forgets the
-- second and reconnects, so two are live and stop reaches only the newer. And a
-- listener that throws in the first snapshot leaves nothing scheduled.
theorem restarted_run_forgets :
    (∃ s, Run (advance {}) Any (initial {}) [.call .start,.call .stop,.call .start,.closeDelivered 0 {},
      .timerFired ⟨2,.reconnect,1000⟩] s ∧ s.live = [1,3]) ∧
    (∃ s, Run (advance {}) Any (initial {}) [.call .start,.call .stop,.call .start,.closeDelivered 0 {},
      .timerFired ⟨2,.reconnect,1000⟩,.call .stop] s ∧ s.running = false ∧ s.live = [1]) ∧
    ∃ s, Run (advance {}) Any (initial {}) [.call .start,.statusSettled (some {snapshot := {throws := true}}) true] s ∧
      s.running = true ∧ s.requests = 0 ∧ s.timers = [] := by
  refine ⟨⟨_,.cons trivial rfl (.cons trivial rfl (.cons trivial rfl (.cons trivial rfl
    (.cons trivial rfl .nil)))),rfl⟩,?_,?_⟩
  · exact ⟨_,.cons trivial rfl (.cons trivial rfl (.cons trivial rfl (.cons trivial rfl (.cons trivial rfl
      (.cons trivial rfl .nil))))),rfl,rfl⟩
  · exact ⟨_,.cons trivial rfl (.cons trivial rfl .nil),rfl,rfl,rfl⟩

end AgentSideCar.Reconciler
