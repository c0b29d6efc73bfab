import AgentSideCar.Library.Rotation
import AgentSideCar.Library.Runs
import Mathlib.Algebra.GroupWithZero.Nat
import Mathlib.Data.List.Perm.Subperm
import Mathlib.Logic.Function.Basic

namespace AgentSideCar.Remote
open Rotation Runs
variable {α ι : Type}

structure FleetBuffer (α : Type) where
  order : List String
  queues : String → List α
  capacity : Nat
  size : Nat
  cursor : Nat
  admitCursor : Nat
  waiters : String → Nat
  priorityWaiters : String → Nat

-- One call of put, with its arguments.
structure Put (α : Type) where
  host : String
  item : α
  priority : Bool

namespace FleetBuffer

def initial (hosts : List String) (capacity : Nat) : FleetBuffer α where
  order := hosts
  queues := fun _ => []
  capacity := capacity
  size := 0
  cursor := 0
  admitCursor := 0
  waiters := fun _ => 0
  priorityWaiters := fun _ => 0

def nextWaitingHost (b : FleetBuffer α) (priority : Bool) : Option String :=
  let waiters := if priority then b.priorityWaiters else b.waiters
  (scan (fun index => b.order[index]?.filter fun host => 0 < waiters host) b.order.length b.admitCursor).map Prod.snd

def eligible (b : FleetBuffer α) (host : String) : Bool :=
  match b.nextWaitingHost true with
  | some priorityHost => host = priorityHost
  | none => b.nextWaitingHost false = some host

def enter (b : FleetBuffer α) (p : Put α) : FleetBuffer α :=
  {b with
    waiters := Function.update b.waiters p.host (b.waiters p.host + 1)
    priorityWaiters := if p.priority then Function.update b.priorityWaiters p.host (b.priorityWaiters p.host + 1)
      else b.priorityWaiters}

def leave (b : FleetBuffer α) (p : Put α) : FleetBuffer α :=
  {b with
    waiters := Function.update b.waiters p.host (b.waiters p.host - 1)
    priorityWaiters := if p.priority then Function.update b.priorityWaiters p.host (b.priorityWaiters p.host - 1)
      else b.priorityWaiters}

-- One round of put's loop under the lock; none where it waits for a notification.
def append (b : FleetBuffer α) (p : Put α) : Option (FleetBuffer α) :=
  if b.size < b.capacity ∧ (b.queues p.host).length < b.capacity ∧ b.eligible p.host then
    some {b with
      queues := Function.update b.queues p.host (b.queues p.host ++ [p.item])
      size := b.size + 1
      admitCursor := (b.order.idxOf p.host + 1) % b.order.length}
  else none

def front (b : FleetBuffer α) (index : Nat) : Option (String × α × List α) :=
  b.order[index]?.bind fun host =>
    match b.queues host with
    | [] => none
    | item :: rest => some (host,item,rest)

-- None where nothing is held: get waits, and raises queue.Empty at its deadline.
def get (b : FleetBuffer α) : Option (String × α × FleetBuffer α) :=
  if b.size = 0 then none
  else (scan b.front b.order.length b.cursor).map fun (index,host,item,rest) => (host,item,{b with
    queues := Function.update b.queues host rest
    size := b.size - 1
    cursor := (index + 1) % b.order.length})

end FleetBuffer

inductive Phase (α : Type) where
  | idle
  | waiting (p : Put α)
  | accepted
  | refused
  | abandoned

-- The session's iterator: it polls; it met queue.Empty; it then read that every host
-- is done; it stopped.
inductive Consumer where
  | polling
  | emptied
  | finished
  | stopped
  deriving DecidableEq

-- `accepted` and `delivered` are what the puts and the gets did so far.
structure Watch (α ι : Type) where
  buffer : FleetBuffer α
  phase : ι → Phase α
  doneHosts : List String
  cancelled : Bool
  consumer : Consumer
  accepted : List (String × α)
  delivered : List (String × α)

inductive Event (α ι : Type) where
  | put (i : ι) (p : Put α)
  | wake (i : ι)
  | abandon (i : ι)
  | get
  | timeout
  | readDone
  | readEmpty
  | stop
  | cancel
  | finish (host : String)

def Watch.initial (hosts : List String) (capacity : Nat) : Watch α ι where
  buffer := .initial hosts capacity
  phase := fun _ => .idle
  doneHosts := []
  cancelled := false
  consumer := .polling
  accepted := []
  delivered := []

section Steps
variable [DecidableEq ι]

-- What a put does while it holds the lock.
def Watch.attempt (s : Watch α ι) (b : FleetBuffer α) (i : ι) (p : Put α) : Watch α ι :=
  if s.cancelled then {s with buffer := b.leave p,phase := Function.update s.phase i .refused}
  else match b.append p with
    | some later => {s with
        buffer := later.leave p
        phase := Function.update s.phase i .accepted
        accepted := s.accepted ++ [(p.host,p.item)]}
    | none => {s with buffer := b,phase := Function.update s.phase i (.waiting p)}

def Watch.advance (s : Watch α ι) : Event α ι → Option (Watch α ι)
  | .put i p =>
    match s.phase i with
    | .idle => if p.host ∈ s.buffer.order ∧ p.host ∉ s.doneHosts then some (s.attempt (s.buffer.enter p) i p) else none
    | _ => none
  | .wake i =>
    match s.phase i with
    | .waiting p => some (s.attempt s.buffer i p)
    | _ => none
  | .abandon i =>
    match s.phase i with
    | .waiting p => some {s with buffer := s.buffer.leave p,phase := Function.update s.phase i .abandoned}
    | _ => none
  | .get =>
    if s.consumer = .polling then
      s.buffer.get.map fun (host,item,b) => {s with buffer := b,delivered := s.delivered ++ [(host,item)]}
    else none
  | .timeout => if s.consumer = .polling ∧ s.buffer.get.isNone then some {s with consumer := .emptied} else none
  | .readDone =>
    if s.consumer = .emptied then
      some {s with consumer := if s.doneHosts.length = s.buffer.order.length then .finished else .polling}
    else none
  | .readEmpty =>
    if s.consumer = .finished then
      some (if s.buffer.size = 0 then {s with consumer := .stopped,cancelled := true} else {s with consumer := .polling})
    else none
  | .stop => if s.consumer = .polling ∧ s.cancelled then some {s with consumer := .stopped} else none
  | .cancel => some {s with cancelled := true}
  | .finish host =>
    if host ∈ s.buffer.order ∧ host ∉ s.doneHosts then some {s with doneHosts := s.doneHosts ++ [host]} else none

end Steps

-- A host's reader finishes only once its puts have returned.
def Returned (s : Watch α ι) : Event α ι → Prop
  | .finish host => ∀ i p, s.phase i = .waiting p → p.host ≠ host
  | _ => True

-- The items of one host, in order.
def ofHost (host : String) (log : List (String × α)) : List α := (log.filter fun entry => entry.1 = host).map Prod.snd

theorem ofHost_snoc (log : List (String × α)) (host other : String) (item : α) :
    ofHost host (log ++ [(other,item)]) = ofHost host log ++ if other = host then [item] else [] := by
  rw [ofHost,List.filter_append,List.map_append]
  split
  · rename_i same
    simp [ofHost,same]
  · rename_i apart
    simp [ofHost,apart]

def FleetBuffer.total (b : FleetBuffer α) : Nat := (b.order.map fun host => (b.queues host).length).sum

theorem total_update (order : List String) (once : order.Nodup) (inside : host ∈ order) (queues : String → List α) (queue : List α) :
    (order.map fun h => (Function.update queues host queue h).length).sum + (queues host).length =
      (order.map fun h => (queues h).length).sum + queue.length := by
  induction order with
  | nil => cases inside
  | cons first rest ih =>
    obtain ⟨fresh,once⟩ := List.nodup_cons.mp once
    rw [List.map_cons,List.map_cons,List.sum_cons,List.sum_cons]
    rcases List.mem_cons.mp inside with same | later
    · subst same
      have kept : (rest.map fun h => (Function.update queues host queue h).length) = rest.map fun h => (queues h).length := by
        apply List.map_congr_left
        intro h present
        rw [Function.update_of_ne (ne_of_mem_of_not_mem present fresh)]
      rw [kept,Function.update_self]
      omega
    · have := ih once later
      rw [Function.update_of_ne (ne_of_mem_of_not_mem later fresh).symm]
      omega

-- The buffer of a reachable session, beside what was accepted and delivered.
structure Stocked (hosts : List String) (capacity : Nat) (b : FleetBuffer α) (accepted delivered : List (String × α)) : Prop where
  order : b.order = hosts
  limit : b.capacity = capacity
  fifo : ∀ host, ofHost host accepted = ofHost host delivered ++ b.queues host
  known : ∀ host, b.queues host ≠ [] → host ∈ hosts
  size : b.size = b.total
  bound : b.size ≤ capacity

variable {hosts : List String} {capacity : Nat} {b : FleetBuffer α} {accepted delivered : List (String × α)}

theorem Stocked.enter (stocked : Stocked hosts capacity b accepted delivered) (p : Put α) :
    Stocked hosts capacity (b.enter p) accepted delivered :=
  ⟨stocked.order,stocked.limit,stocked.fifo,stocked.known,stocked.size,stocked.bound⟩

theorem Stocked.leave (stocked : Stocked hosts capacity b accepted delivered) (p : Put α) :
    Stocked hosts capacity (b.leave p) accepted delivered :=
  ⟨stocked.order,stocked.limit,stocked.fifo,stocked.known,stocked.size,stocked.bound⟩

theorem Stocked.append (stocked : Stocked hosts capacity b accepted delivered) (once : hosts.Nodup) (p : Put α)
    (inside : p.host ∈ hosts) (appended : b.append p = some later) :
    Stocked hosts capacity later (accepted ++ [(p.host,p.item)]) delivered := by
  unfold FleetBuffer.append at appended
  split at appended
  · rename_i room
    cases appended
    refine ⟨stocked.order,stocked.limit,fun host => ?_,fun host held => ?_,?_,?_⟩
    · rw [ofHost_snoc,stocked.fifo]
      by_cases same : p.host = host
      · subst same
        simp
      · simp [same,Function.update_of_ne (Ne.symm same)]
    · by_cases same : host = p.host
      · rw [same]
        exact inside
      · exact stocked.known host (by simpa [same] using held)
    · have sum := total_update b.order (by rw [stocked.order]; exact once) (by rw [stocked.order]; exact inside) b.queues
        (b.queues p.host ++ [p.item])
      have size := stocked.size
      simp only [FleetBuffer.total,List.length_append,List.length_cons,List.length_nil] at sum size ⊢
      omega
    · have := stocked.limit
      simp only
      omega
  · cases appended

theorem front_some {b : FleetBuffer α} (front : b.front index = some (host,item,rest)) :
    b.order[index]? = some host ∧ b.queues host = item :: rest := by
  obtain ⟨name,there,held⟩ := Option.bind_eq_some_iff.mp front
  cases queue : b.queues name with
  | nil => rw [queue] at held; cases held
  | cons first later =>
    rw [queue] at held
    cases held
    exact ⟨there,queue⟩

theorem get_some {b : FleetBuffer α} (got : b.get = some (host,item,later)) : ∃ index rest,
    scan b.front b.order.length b.cursor = some (index,host,item,rest) ∧ b.queues host = item :: rest ∧ host ∈ b.order ∧
    later = {b with
      queues := Function.update b.queues host rest
      size := b.size - 1
      cursor := (index + 1) % b.order.length} := by
  unfold FleetBuffer.get at got
  split at got
  · cases got
  · obtain ⟨⟨index,name,first,rest⟩,scanned,same⟩ := Option.map_eq_some_iff.mp got
    cases same
    obtain ⟨_,_,offered,_⟩ := scan_some scanned
    obtain ⟨there,queue⟩ := front_some offered
    exact ⟨index,rest,scanned,queue,List.mem_of_getElem? there,rfl⟩

theorem Stocked.get (stocked : Stocked hosts capacity b accepted delivered) (once : hosts.Nodup)
    (got : b.get = some (host,item,later)) : Stocked hosts capacity later accepted (delivered ++ [(host,item)]) := by
  obtain ⟨index,rest,_,queue,inside,rfl⟩ := get_some got
  refine ⟨stocked.order,stocked.limit,fun other => ?_,fun other held => ?_,?_,?_⟩
  · rw [ofHost_snoc,stocked.fifo]
    by_cases same : host = other
    · subst same
      simp [queue]
    · simp [same,Function.update_of_ne (Ne.symm same)]
  · by_cases same : other = host
    · rw [same,← stocked.order]
      exact inside
    · exact stocked.known other (by simpa [same] using held)
  · have sum := total_update b.order (by rw [stocked.order]; exact once) inside b.queues rest
    have size := stocked.size
    rw [queue] at sum
    simp only [FleetBuffer.total,List.length_cons] at sum size ⊢
    omega
  · have := stocked.bound
    simp only
    omega

theorem Stocked.drained (stocked : Stocked hosts capacity b accepted delivered) (empty : b.size = 0) (host : String) :
    b.queues host = [] := by
  by_contra held
  have inside := stocked.known host held
  have size := stocked.size
  rw [empty,FleetBuffer.total,eq_comm,List.sum_eq_zero_iff_forall_eq_nat] at size
  have none' := size _ (List.mem_map.mpr ⟨host,by rw [stocked.order]; exact inside,rfl⟩)
  exact held (List.eq_nil_of_length_eq_zero none')

structure Watched (hosts : List String) (capacity : Nat) (s : Watch α ι) : Prop where
  stocked : Stocked hosts capacity s.buffer s.accepted s.delivered
  doneOnce : s.doneHosts.Nodup
  doneKnown : ∀ host ∈ s.doneHosts, host ∈ hosts
  busy : ∀ i p, s.phase i = .waiting p → p.host ∈ hosts ∧ p.host ∉ s.doneHosts
  finished : s.consumer = .finished → ∀ host ∈ hosts, host ∈ s.doneHosts

theorem initial_watched (hosts : List String) (capacity : Nat) : Watched hosts capacity (Watch.initial hosts capacity : Watch α ι) := by
  refine ⟨⟨rfl,rfl,fun _ => rfl,fun _ held => absurd rfl held,?_,Nat.zero_le _⟩,.nil,by simp [Watch.initial],
    fun _ _ waiting => (nomatch waiting),fun ended => (nomatch ended)⟩
  simp [Watch.initial,FleetBuffer.initial,FleetBuffer.total]

-- Without a cancel the iterator stops only when every host is done and nothing is held.
structure Drains (hosts : List String) (s : Watch α ι) : Prop where
  quiet : s.cancelled = true → s.consumer = .stopped
  done : s.consumer = .stopped → ∀ host ∈ hosts, host ∈ s.doneHosts
  empty : s.consumer = .stopped → s.buffer.size = 0

theorem Drains.kept {s t : Watch α ι} (drains : Drains hosts s) (open' : host ∈ hosts) (busy : host ∉ s.doneHosts)
    (consumer : t.consumer = s.consumer) (cancelled : t.cancelled = s.cancelled) : Drains hosts t := by
  have going : s.consumer ≠ .stopped := fun stopped => busy (drains.done stopped host open')
  refine ⟨fun set => ?_,fun stopped => absurd (consumer ▸ stopped) going,fun stopped => absurd (consumer ▸ stopped) going⟩
  rw [cancelled] at set
  rw [consumer]
  exact drains.quiet set

theorem initial_drains (hosts : List String) (capacity : Nat) : Drains hosts (Watch.initial hosts capacity : Watch α ι) :=
  ⟨fun set => (nomatch set),fun stopped => (nomatch stopped),fun stopped => (nomatch stopped)⟩

variable [DecidableEq ι] {s t : Watch α ι}

theorem busy_update (busy : ∀ i p, s.phase i = .waiting p → p.host ∈ hosts ∧ p.host ∉ s.doneHosts) (phase : Phase α)
    (next : ∀ p, phase = .waiting p → p.host ∈ hosts ∧ p.host ∉ s.doneHosts) (i j : ι) (p : Put α)
    (waiting : Function.update s.phase i phase j = .waiting p) : p.host ∈ hosts ∧ p.host ∉ s.doneHosts := by
  by_cases same : j = i
  · subst same
    exact next p (by simpa using waiting)
  · exact busy j p (by simpa [same] using waiting)

theorem attempt_watched (watched : Watched hosts capacity s) (once : hosts.Nodup) (p : Put α) (inside : p.host ∈ hosts)
    (open' : p.host ∉ s.doneHosts) (b : FleetBuffer α) (stocked : Stocked hosts capacity b s.accepted s.delivered) (i : ι) :
    Watched hosts capacity (s.attempt b i p) := by
  unfold Watch.attempt
  split
  · exact ⟨stocked.leave p,watched.doneOnce,watched.doneKnown,
      busy_update watched.busy .refused (fun _ same => (nomatch same)) i,watched.finished⟩
  · split
    · rename_i later appended
      exact ⟨(stocked.append once p inside appended).leave p,watched.doneOnce,watched.doneKnown,
        busy_update watched.busy .accepted (fun _ same => (nomatch same)) i,watched.finished⟩
    · refine ⟨stocked,watched.doneOnce,watched.doneKnown,busy_update watched.busy (.waiting p) (fun q same => ?_) i,
        watched.finished⟩
      cases same
      exact ⟨inside,open'⟩

theorem step_watched (once : hosts.Nodup) (watched : Watched hosts capacity s) (returned : Returned s event)
    (stepped : s.advance event = some t) : Watched hosts capacity t := by
  have order := watched.stocked.order
  cases event with
  | put i p =>
    simp only [Watch.advance] at stepped
    split at stepped
    · split at stepped
      · rename_i may
        cases stepped
        exact attempt_watched watched once p (order ▸ may.1) may.2 _ (watched.stocked.enter p) i
      · cases stepped
    · cases stepped
  | wake i =>
    simp only [Watch.advance] at stepped
    cases phase : s.phase i with
    | waiting p =>
      rw [phase] at stepped
      cases stepped
      obtain ⟨inside,open'⟩ := watched.busy i p phase
      exact attempt_watched watched once p inside open' _ watched.stocked i
    | _ => rw [phase] at stepped; cases stepped
  | abandon i =>
    simp only [Watch.advance] at stepped
    cases phase : s.phase i with
    | waiting p =>
      rw [phase] at stepped
      cases stepped
      exact ⟨watched.stocked.leave p,watched.doneOnce,watched.doneKnown,
        busy_update watched.busy .abandoned (fun _ same => (nomatch same)) i,watched.finished⟩
    | _ => rw [phase] at stepped; cases stepped
  | get =>
    simp only [Watch.advance] at stepped
    split at stepped
    · obtain ⟨⟨host,item,b⟩,got,same⟩ := Option.map_eq_some_iff.mp stepped
      cases same
      exact ⟨watched.stocked.get once got,watched.doneOnce,watched.doneKnown,watched.busy,watched.finished⟩
    · cases stepped
  | timeout =>
    simp only [Watch.advance] at stepped
    split at stepped
    · cases stepped
      exact ⟨watched.stocked,watched.doneOnce,watched.doneKnown,watched.busy,fun ended => (nomatch ended)⟩
    · cases stepped
  | readDone =>
    simp only [Watch.advance] at stepped
    split at stepped
    · cases stepped
      refine ⟨watched.stocked,watched.doneOnce,watched.doneKnown,watched.busy,fun ended host inside => ?_⟩
      simp only at ended
      split at ended
      · rename_i whole
        rw [order] at whole
        have all := (watched.doneOnce.subperm watched.doneKnown).perm_of_length_le (by omega)
        exact all.mem_iff.mpr inside
      · cases ended
    · cases stepped
  | readEmpty =>
    simp only [Watch.advance] at stepped
    split at stepped
    · cases stepped
      split
      · exact ⟨watched.stocked,watched.doneOnce,watched.doneKnown,watched.busy,fun ended => (nomatch ended)⟩
      · exact ⟨watched.stocked,watched.doneOnce,watched.doneKnown,watched.busy,fun ended => (nomatch ended)⟩
    · cases stepped
  | stop =>
    simp only [Watch.advance] at stepped
    split at stepped
    · cases stepped
      exact ⟨watched.stocked,watched.doneOnce,watched.doneKnown,watched.busy,fun ended => (nomatch ended)⟩
    · cases stepped
  | cancel =>
    cases stepped
    exact ⟨watched.stocked,watched.doneOnce,watched.doneKnown,watched.busy,watched.finished⟩
  | finish host =>
    simp only [Watch.advance] at stepped
    split at stepped
    · rename_i may
      cases stepped
      refine ⟨watched.stocked,?_,fun other inside => ?_,fun i p waiting => ?_,fun ended other inside => ?_⟩
      · exact List.nodup_append.mpr ⟨watched.doneOnce,by simp,fun a old b new same => by
          rw [List.mem_singleton.mp new] at same
          exact may.2 (same ▸ old)⟩
      · rcases List.mem_append.mp inside with old | new
        · exact watched.doneKnown other old
        · rw [List.mem_singleton.mp new]
          exact order ▸ may.1
      · obtain ⟨inside,open'⟩ := watched.busy i p waiting
        refine ⟨inside,fun done => ?_⟩
        rcases List.mem_append.mp done with old | new
        · exact open' old
        · exact returned i p waiting (List.mem_singleton.mp new)
      · exact List.mem_append_left _ (watched.finished ended other inside)
    · cases stepped

theorem run_watched (once : hosts.Nodup) (watched : Watched hosts capacity s)
    (path : Run Watch.advance Returned s events t) : Watched hosts capacity t :=
  path.invariant (Watched hosts capacity) watched fun _ _ _ held fits stepped => step_watched once held fits stepped

theorem attempt_grows (s : Watch α ι) (b : FleetBuffer α) (i : ι) (p : Put α) :
    (s.attempt b i p).delivered = s.delivered ∧ (s.attempt b i p).buffer.order = b.order ∧
      (s.attempt b i p).buffer.cursor = b.cursor ∧ (s.attempt b i p).consumer = s.consumer ∧
      (s.attempt b i p).cancelled = s.cancelled ∧ ∀ host, b.queues host <+: (s.attempt b i p).buffer.queues host := by
  unfold Watch.attempt
  split
  · exact ⟨rfl,rfl,rfl,rfl,rfl,fun _ => List.prefix_rfl⟩
  · split
    · rename_i later appended
      unfold FleetBuffer.append at appended
      split at appended
      · cases appended
        refine ⟨rfl,rfl,rfl,rfl,rfl,fun host => ?_⟩
        by_cases same : host = p.host
        · subst same
          simp [FleetBuffer.leave]
        · simp [FleetBuffer.leave,same]
      · cases appended
    · exact ⟨rfl,rfl,rfl,rfl,rfl,fun _ => List.prefix_rfl⟩

-- A step delivers what a get takes, or nothing; then no queue shrinks and no turn is taken.
theorem step_serves (stepped : s.advance event = some t) :
    (t.delivered = s.delivered ∧ t.buffer.order = s.buffer.order ∧ t.buffer.cursor = s.buffer.cursor ∧
      ∀ host, s.buffer.queues host <+: t.buffer.queues host) ∨
    ∃ host item, s.buffer.get = some (host,item,t.buffer) ∧ t.delivered = s.delivered ++ [(host,item)] := by
  cases event with
  | put i p =>
    simp only [Watch.advance] at stepped
    split at stepped
    · split at stepped
      · cases stepped
        obtain ⟨delivered,order,cursor,_,_,queues⟩ := attempt_grows s (s.buffer.enter p) i p
        exact .inl ⟨delivered,order,cursor,queues⟩
      · cases stepped
    · cases stepped
  | wake i =>
    simp only [Watch.advance] at stepped
    split at stepped
    · cases stepped
      obtain ⟨delivered,order,cursor,_,_,queues⟩ := attempt_grows s s.buffer i _
      exact .inl ⟨delivered,order,cursor,queues⟩
    · cases stepped
  | abandon i =>
    simp only [Watch.advance] at stepped
    split at stepped
    · cases stepped
      exact .inl ⟨rfl,rfl,rfl,fun _ => List.prefix_rfl⟩
    · cases stepped
  | get =>
    simp only [Watch.advance] at stepped
    split at stepped
    · obtain ⟨⟨host,item,b⟩,got,same⟩ := Option.map_eq_some_iff.mp stepped
      cases same
      exact .inr ⟨host,item,got,rfl⟩
    · cases stepped
  | cancel =>
    cases stepped
    exact .inl ⟨rfl,rfl,rfl,fun _ => List.prefix_rfl⟩
  | readEmpty =>
    simp only [Watch.advance] at stepped
    split at stepped
    · cases stepped
      refine .inl ?_
      split <;> exact ⟨rfl,rfl,rfl,fun _ => List.prefix_rfl⟩
    · cases stepped
  | _ =>
    simp only [Watch.advance] at stepped
    split at stepped
    · cases stepped
      exact .inl ⟨rfl,rfl,rfl,fun _ => List.prefix_rfl⟩
    · cases stepped

-- A host that waits has been served among the first n gets, or has a turn left.
def Nearing (n : Nat) (host : String) (b : FleetBuffer α) (served : List (String × α)) : Prop :=
  host ∈ (served.take n).map Prod.fst ∨ b.queues host ≠ [] ∧
    ∃ index steps, b.order[index]? = some host ∧ Ahead n b.cursor steps index ∧ served.length + steps < n

theorem front_waits {b : FleetBuffer α} (there : b.order[index]? = some host) (held : b.queues host ≠ []) :
    b.front index ≠ none := by
  rw [FleetBuffer.front,there,Option.bind_some]
  cases queue : b.queues host with
  | nil => exact absurd queue held
  | cons item rest => simp

theorem get_nearing {b : FleetBuffer α} (size : b.order.length = n) (got : b.get = some (name,item,later))
    (near : Nearing n host b served) : Nearing n host later (served ++ [(name,item)]) := by
  rcases near with already | ⟨held,index,steps,there,ahead,few⟩
  · left
    rw [List.take_append,List.map_append]
    exact List.mem_append_left _ already
  · obtain ⟨other,rest,scanned,queue,_,rfl⟩ := get_some got
    obtain ⟨_,_,offered,_⟩ := scan_some scanned
    by_cases same : name = host
    · left
      subst same
      rw [List.take_of_length_le (by rw [List.length_append,List.length_singleton]; omega)]
      simp
    · right
      have apart : other ≠ index := by
        intro equal
        have := (front_some offered).1
        rw [equal,there] at this
        exact same (Option.some.inj this).symm
      rw [size] at scanned
      obtain ⟨fewer,less,nearer⟩ := scan_nearer ahead (front_waits there held) scanned apart
      refine ⟨by simpa [Ne.symm same] using held,index,fewer,there,by simpa [size] using nearer,?_⟩
      rw [List.length_append,List.length_singleton]
      omega

theorem run_nearing (path : Run Watch.advance allowed s events t) (size : s.buffer.order.length = n)
    (near : Nearing n host s.buffer served) : ∃ more, t.delivered = s.delivered ++ more ∧
      Nearing n host t.buffer (served ++ more) := by
  induction path generalizing served with
  | nil => exact ⟨[],by simp,by simpa using near⟩
  | cons _ stepped _ ih =>
    rcases step_serves stepped with ⟨delivered,order,cursor,queues⟩ | ⟨name,item,got,delivered⟩
    · rename_i middle _ _ _ _
      have still : Nearing n host middle.buffer served := by
        rcases near with already | ⟨held,index,steps,there,ahead,few⟩
        · exact .inl already
        · refine .inr ⟨fun empty => held ?_,index,steps,by rw [order]; exact there,by rw [cursor]; exact ahead,few⟩
          exact List.prefix_nil.mp (empty ▸ queues host)
      obtain ⟨more,later,near⟩ := ih (by rw [order]; exact size) still
      exact ⟨more,by rw [later,delivered],near⟩
    · have next := get_nearing size got near
      obtain ⟨index,rest,_,_,_,whole⟩ := get_some got
      obtain ⟨more,later,near⟩ := ih (by rw [whole]; exact size) next
      refine ⟨(name,item) :: more,by rw [later,delivered,List.append_assoc]; rfl,?_⟩
      simpa using near

theorem step_drains (watched : Watched hosts capacity s) (drains : Drains hosts s) (plain : event ≠ .cancel)
    (stepped : s.advance event = some t) : Drains hosts t := by
  have order := watched.stocked.order
  cases event with
  | put i p =>
    simp only [Watch.advance] at stepped
    split at stepped
    · split at stepped
      · rename_i may
        cases stepped
        obtain ⟨_,_,_,consumer,cancelled,_⟩ := attempt_grows s (s.buffer.enter p) i p
        exact drains.kept (order ▸ may.1) may.2 consumer cancelled
      · cases stepped
    · cases stepped
  | wake i =>
    simp only [Watch.advance] at stepped
    cases phase : s.phase i with
    | waiting p =>
      rw [phase] at stepped
      cases stepped
      obtain ⟨inside,open'⟩ := watched.busy i p phase
      obtain ⟨_,_,_,consumer,cancelled,_⟩ := attempt_grows s s.buffer i p
      exact drains.kept inside open' consumer cancelled
    | _ => rw [phase] at stepped; cases stepped
  | abandon i =>
    simp only [Watch.advance] at stepped
    split at stepped
    · cases stepped
      exact ⟨drains.quiet,drains.done,drains.empty⟩
    · cases stepped
  | get =>
    simp only [Watch.advance] at stepped
    split at stepped
    · rename_i polling
      obtain ⟨⟨host,item,b⟩,got,same⟩ := Option.map_eq_some_iff.mp stepped
      cases same
      refine ⟨drains.quiet,drains.done,fun stopped => ?_⟩
      rw [polling] at stopped
      cases stopped
    · cases stepped
  | timeout =>
    simp only [Watch.advance] at stepped
    split at stepped
    · rename_i polling
      cases stepped
      refine ⟨fun set => ?_,fun stopped => (nomatch stopped),fun stopped => (nomatch stopped)⟩
      have := drains.quiet set
      rw [polling.1] at this
      cases this
    · cases stepped
  | readDone =>
    simp only [Watch.advance] at stepped
    split at stepped
    · rename_i emptied
      cases stepped
      have open' : s.cancelled = true → False := by
        intro set
        have := drains.quiet set
        rw [emptied] at this
        cases this
      split
      · exact ⟨fun set => (open' set).elim,fun stopped => (nomatch stopped),fun stopped => (nomatch stopped)⟩
      · exact ⟨fun set => (open' set).elim,fun stopped => (nomatch stopped),fun stopped => (nomatch stopped)⟩
    · cases stepped
  | readEmpty =>
    simp only [Watch.advance] at stepped
    split at stepped
    · rename_i finished
      cases stepped
      split
      · rename_i empty
        exact ⟨fun _ => rfl,fun _ => watched.finished finished,fun _ => empty⟩
      · refine ⟨fun set => ?_,fun stopped => (nomatch stopped),fun stopped => (nomatch stopped)⟩
        have := drains.quiet set
        rw [finished] at this
        cases this
    · cases stepped
  | stop =>
    simp only [Watch.advance] at stepped
    split at stepped
    · rename_i polling
      have := drains.quiet polling.2
      rw [polling.1] at this
      cases this
    · cases stepped
  | cancel => exact absurd rfl plain
  | finish host =>
    simp only [Watch.advance] at stepped
    split at stepped
    · cases stepped
      exact ⟨drains.quiet,fun stopped other inside => List.mem_append_left _ (drains.done stopped other inside),drains.empty⟩
    · cases stepped

theorem run_drains (once : hosts.Nodup) (watched : Watched hosts capacity s) (drains : Drains hosts s)
    (path : Run Watch.advance Returned s events t) (plain : ∀ event ∈ events, event ≠ .cancel) : Drains hosts t := by
  have both := (path.among plain).invariant
    (fun s => Watched hosts capacity s ∧ Drains hosts s) ⟨watched,drains⟩ ?_
  · exact both.2
  · intro before event after held fits stepped
    exact ⟨step_watched once held.1 fits.1 stepped,step_drains held.1 held.2 fits.2 stepped⟩

-- Whatever puts, gets, cancels and finished readers come in whatever order: a host's
-- items are delivered as they were accepted, what is held is counted and bounded, a
-- host with a queue is served among the next n gets, and an iterator that no cancel
-- ended has delivered all that was accepted.
theorem watch_exact (once : hosts.Nodup) (path : Run Watch.advance Returned (Watch.initial hosts capacity) events s) :
    (∀ host, ofHost host s.accepted = ofHost host s.delivered ++ s.buffer.queues host) ∧
    s.buffer.size = (hosts.map fun host => (s.buffer.queues host).length).sum ∧ s.buffer.size ≤ capacity ∧
    (∀ later t served, Run Watch.advance Returned s later t → t.delivered = s.delivered ++ served →
      hosts.length ≤ served.length → ∀ host, s.buffer.queues host ≠ [] → host ∈ (served.take hosts.length).map Prod.fst) ∧
    ((∀ event ∈ events, event ≠ .cancel) → s.consumer = .stopped →
      ∀ host, ofHost host s.delivered = ofHost host s.accepted) := by
  have watched := run_watched once (initial_watched hosts capacity) path
  have stocked := watched.stocked
  refine ⟨stocked.fifo,?_,stocked.bound,fun later t served run delivered whole host held => ?_,fun plain stopped host => ?_⟩
  · rw [stocked.size,FleetBuffer.total,stocked.order]
  · have size : s.buffer.order.length = hosts.length := by rw [stocked.order]
    obtain ⟨index,inside,there⟩ := List.mem_iff_getElem.mp (stocked.known host held)
    obtain ⟨steps,ahead⟩ := ahead_exists s.buffer.cursor inside
    have near : Nearing hosts.length host s.buffer [] :=
      .inr ⟨held,index,steps,by rw [stocked.order,List.getElem?_eq_getElem inside,there],ahead,by simpa using ahead.1⟩
    obtain ⟨more,same,last⟩ := run_nearing run size near
    have equal := List.append_cancel_left (delivered.symm.trans same)
    subst equal
    rcases last with found | ⟨_,_,_,_,_,few⟩
    · simpa using found
    · simp only [List.nil_append] at few
      omega
  · have drains := run_drains once (initial_watched hosts capacity) (initial_drains hosts capacity) path plain
    rw [stocked.fifo,stocked.drained (drains.empty stopped),List.append_nil]

-- Two readers fill a buffer of two; one get leaves the other host's item.
theorem demo_watch : ∃ s : Watch Nat Bool, Run Watch.advance Returned (Watch.initial ["a","b"] 2)
      [.put true ⟨"a",1,true⟩,.put false ⟨"b",2,false⟩,.get] s ∧
    ofHost "b" s.accepted = ofHost "b" s.delivered ++ s.buffer.queues "b" ∧ s.buffer.queues "b" = [2] := by
  have path : Run Watch.advance Returned (Watch.initial ["a","b"] 2 : Watch Nat Bool)
      [.put true ⟨"a",1,true⟩,.put false ⟨"b",2,false⟩,.get] _ :=
    .cons trivial rfl (.cons trivial rfl (.cons trivial rfl .nil))
  exact ⟨_,path,(watch_exact (by decide) path).1 "b",rfl⟩

end AgentSideCar.Remote
