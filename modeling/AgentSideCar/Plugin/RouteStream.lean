import AgentSideCar.Library.Outbox
import AgentSideCar.Library.Runs
import Mathlib.Data.List.Nodup

namespace AgentSideCar.RouteStream
open Runs
variable {σ : Type}

inductive Frame (σ : Type) where
  | state (snapshot : σ)
  | heartbeat
  deriving DecidableEq

def Frame.snapshot? : Frame σ → Option σ
  | .state snapshot => some snapshot
  | .heartbeat => none

structure Options where
  maxSseClients : Nat := 8
  sseBufferLimit : Nat := 256

-- A stream's connection. `first` is the snapshot it was accepted with, `joined` how many
-- changes the routes had been told of before.
structure SseClient (σ : Type) where
  first : σ
  joined : Nat
  box : Outbox (Frame σ)
  closed : Bool := false
  heartbeat : Bool := true

-- The snapshot each change was told with, every stream that was ever accepted, and the
-- set of the clients.
structure State (σ : Type) where
  log : List σ
  streams : Nat → Option (SseClient σ)
  clients : List Nat
  disposed : Bool

def start : State σ := ⟨[],fun _ => none,[],false⟩

def cleanupClient (c : SseClient σ) : SseClient σ :=
  if c.closed then c else {c with closed := true,heartbeat := false,box := {c.box with pending := []}}

-- One frame more than the limit behind a blocked connection costs it the stream.
def push (o : Options) (ready : Bool) (frame : Frame σ) (c : SseClient σ) : SseClient σ :=
  if c.closed then c
  else
    let c' := {c with box := c.box.offer ready frame}
    if c.box.blocked ∧ o.sseBufferLimit < c'.box.pending.length then cleanupClient c' else c'

def flush (ready : Nat → Bool) (c : SseClient σ) : SseClient σ := if c.closed then c else {c with box := c.box.flush ready}

-- What is done to a stream; one that is closed by it leaves the set.
def change (id : Nat) (f : SseClient σ → SseClient σ) (s : State σ) : State σ :=
  match s.streams id with
  | none => s
  | some c => {s with
      streams := fun i => if i = id then some (f c) else s.streams i,
      clients := if (f c).closed then s.clients.filter (· ≠ id) else s.clients}

def changes (ids : List Nat) (f : Nat → SseClient σ → SseClient σ) (s : State σ) : State σ :=
  ids.foldl (fun t id => change id (f id) t) s

def onMutation (o : Options) (ready : Nat → Bool) (snapshot : σ) (s : State σ) : State σ :=
  if s.disposed ∨ s.clients = [] then s
  else changes s.clients (fun id => push o (ready id) (.state snapshot)) s

def enter (id : Nat) (snapshot : σ) (s : State σ) : State σ :=
  {s with
    streams := fun i => if i = id then some ⟨snapshot,s.log.length,.empty,false,true⟩ else s.streams i,
    clients := s.clients ++ [id]}

-- A request that comes after the end is answered before it gets here.
def acceptStream (o : Options) (ready : Bool) (snapshot : σ) (id : Nat) (s : State σ) : State σ :=
  if s.disposed ∨ o.maxSseClients ≤ s.clients.length then s
  else change id (push o ready (.state snapshot)) (enter id snapshot s)

def dispose (s : State σ) : State σ :=
  if s.disposed then s
  else changes s.clients (fun _ => cleanupClient) {s with disposed := true}

-- A request for the stream over a new connection, a change of the state, a tick of a stream's
-- interval, its connection drained or closed, or the end. `ready` is what each write answers,
-- `snapshot` the state as it is found.
inductive Event (σ : Type) where
  | connect (id : Nat) (snapshot : σ) (ready : Bool)
  | mutate (snapshot : σ) (ready : Nat → Bool)
  | beat (id : Nat) (ready : Bool)
  | drain (id : Nat) (ready : Nat → Bool)
  | close (id : Nat)
  | dispose

def advance (o : Options) (s : State σ) : Event σ → Option (State σ)
  | .connect id snapshot ready => if (s.streams id).isSome then none else some (acceptStream o ready snapshot id s)
  | .mutate snapshot ready => some {onMutation o ready snapshot s with log := s.log ++ [snapshot]}
  | .beat id ready => if (s.streams id).any (·.heartbeat) then some (change id (push o ready .heartbeat) s) else none
  | .drain id ready => some (change id (flush ready) s)
  | .close id => some (change id cleanupClient s)
  | .dispose => some (dispose s)

def snapshots (frames : List (Frame σ)) : List σ := frames.filterMap Frame.snapshot?

-- What a stream has, and has waiting, of what the routes were told of since it was accepted.
structure Delivers (o : Options) (log : List σ) (c : SseClient σ) : Prop where
  joined : c.joined ≤ log.length
  first : c.box.written.head? = some (.state c.first)
  written : snapshots c.box.written <+: c.first :: log.drop c.joined
  whole : c.closed = false → snapshots c.box.whole = c.first :: log.drop c.joined
  settled : c.closed = false → c.box.Settled
  within : c.box.pending.length ≤ o.sseBufferLimit

-- The set of the clients is the open streams, each once.
structure Roster (s : State σ) : Prop where
  members : ∀ id, id ∈ s.clients ↔ ∃ c, s.streams id = some c ∧ c.closed = false
  unique : s.clients.Nodup

structure Invariant (o : Options) (s : State σ) : Prop where
  streams : ∀ id c, s.streams id = some c → Delivers o s.log c
  roster : Roster s
  few : s.clients.length ≤ o.maxSseClients
  done : s.disposed = true → s.clients = []

section Clients
variable {o : Options} {log : List σ} {c : SseClient σ}

-- A stream that is closed is left as it is.
def Leaves (f : SseClient σ → SseClient σ) : Prop := ∀ c, c.closed = true → f c = c

theorem cleanup_leaves : Leaves (σ := σ) cleanupClient := by
  intro c closed
  rw [cleanupClient,if_pos closed]

theorem push_leaves (ready : Bool) (frame : Frame σ) : Leaves (push o ready frame) := by
  intro c closed
  rw [push,if_pos closed]

theorem flush_leaves (ready : Nat → Bool) : Leaves (σ := σ) (flush ready) := by
  intro c closed
  rw [flush,if_pos closed]

theorem cleanup_closed : (cleanupClient c).closed = true := by
  unfold cleanupClient
  split
  · assumption
  · rfl

theorem snapshots_append (early late : List (Frame σ)) : snapshots (early ++ late) = snapshots early ++ snapshots late :=
  List.filterMap_append

theorem closed_all (closed : c.closed = true) (joined : c.joined ≤ log.length) (first : c.box.written.head? = some (.state c.first))
    (written : snapshots c.box.written <+: c.first :: log.drop c.joined) (within : c.box.pending.length ≤ o.sseBufferLimit) :
    Delivers o log c where
  joined := joined
  first := first
  written := written
  whole := fun open' => absurd (closed.symm.trans open') Bool.true_eq_false.mp
  settled := fun open' => absurd (closed.symm.trans open') Bool.true_eq_false.mp
  within := within

theorem cleanup_delivers (delivers : Delivers o log c) : Delivers o log (cleanupClient c) := by
  unfold cleanupClient
  split
  · exact delivers
  · exact closed_all rfl delivers.joined delivers.first delivers.written (Nat.zero_le _)

theorem closed_delivers (delivers : Delivers o log c) (closed : c.closed = true) (snapshot : σ) :
    Delivers o (log ++ [snapshot]) c := by
  apply closed_all closed (Nat.le_trans delivers.joined (by simp)) delivers.first _ delivers.within
  apply delivers.written.trans
  rw [List.drop_append_of_le_length delivers.joined,← List.cons_append]
  exact List.prefix_append _ _

theorem head_stays {frames more : List (Frame σ)} {frame : Frame σ} (grown : frames <+: more) (first : frames.head? = some frame) :
    more.head? = some frame := by
  obtain ⟨rest,rfl⟩ := grown
  rw [List.head?_append,first]
  rfl

theorem drop_told (joined : c.joined ≤ log.length) (frame : Frame σ) (told : List σ) (same : told = snapshots [frame]) :
    c.first :: (log ++ told).drop c.joined = (c.first :: log.drop c.joined) ++ snapshots [frame] := by
  rw [List.drop_append_of_le_length joined,same,List.cons_append]

-- A frame goes to an open stream: behind what it has, or to the end of what waits for it,
-- or it is dropped with all that waits.
theorem push_delivers (delivers : Delivers o log c) (open' : c.closed = false) (ready : Bool) (frame : Frame σ) :
    Delivers o (log ++ snapshots [frame]) (push o ready frame c) := by
  have settled := delivers.settled open'
  have grown := Outbox.offer_whole settled ready frame
  have told := drop_told delivers.joined frame _ rfl
  have whole : snapshots (c.box.offer ready frame).whole = c.first :: (log ++ snapshots [frame]).drop c.joined := by
    rw [grown,snapshots_append,delivers.whole open',told]
  have joined : c.joined ≤ (log ++ snapshots [frame]).length := Nat.le_trans delivers.joined (by simp)
  have first : (c.box.offer ready frame).written.head? = some (.state c.first) := by
    exact head_stays (Outbox.offer_written ready frame) delivers.first
  have written : snapshots (c.box.offer ready frame).written <+: c.first :: (log ++ snapshots [frame]).drop c.joined := by
    rw [← whole,Outbox.whole,snapshots_append]
    exact List.prefix_append _ _
  rw [push,if_neg (by simp [open'])]
  simp only
  split
  · rw [cleanupClient,if_neg (by simp [open'])]
    exact closed_all rfl joined first written (Nat.zero_le _)
  · rename_i fits
    refine ⟨joined,first,written,fun _ => whole,fun _ => Outbox.offer_settled settled ready frame,?_⟩
    by_cases blocked : c.box.blocked = true
    · exact Nat.le_of_not_lt fun more => fits ⟨blocked,more⟩
    · have none' := settled (by simpa using blocked)
      simp [Outbox.offer,blocked,none']

theorem beat_delivers (delivers : Delivers o log c) (ready : Bool) : Delivers o log (push o ready .heartbeat c) := by
  cases closed : c.closed with
  | true =>
    rw [push_leaves ready .heartbeat c closed]
    exact delivers
  | false =>
    have sent := push_delivers delivers closed ready .heartbeat
    rwa [show snapshots [Frame.heartbeat (σ := σ)] = [] from rfl,List.append_nil] at sent

theorem flush_delivers (delivers : Delivers o log c) (ready : Nat → Bool) : Delivers o log (flush ready c) := by
  unfold flush
  split
  · exact delivers
  · rename_i open'
    have whole : snapshots (c.box.flush ready).whole = c.first :: log.drop c.joined := by
      rw [Outbox.flush_whole,delivers.whole (by simpa using open')]
    refine ⟨delivers.joined,head_stays (Outbox.flush_written ready) delivers.first,?_,fun _ => whole,
      fun _ => Outbox.flush_settled ready,Nat.le_trans (Outbox.flush_pending ready) delivers.within⟩
    rw [← whole,Outbox.whole,snapshots_append]
    exact List.prefix_append _ _

theorem accepted_delivers (ready : Bool) (snapshot : σ) :
    Delivers o log (push o ready (.state snapshot) ⟨snapshot,log.length,.empty,false,true⟩) := by
  have done : log.drop log.length = [] := List.drop_length
  simp only [push,Outbox.empty,Outbox.offer]
  refine ⟨Nat.le_refl _,rfl,?_,fun _ => ?_,fun _ _ => rfl,Nat.zero_le _⟩
  · simp [done,snapshots,Frame.snapshot?]
  · simp [done,snapshots,Frame.snapshot?,Outbox.whole]

-- What a stream was sent is only added to, and once it is closed it stays as it is.
structure Grows (c d : SseClient σ) : Prop where
  written : c.box.written <+: d.box.written
  closed : c.closed = true → d = c

theorem Grows.refl (c : SseClient σ) : Grows c c := ⟨List.prefix_rfl,fun _ => rfl⟩

theorem Grows.trans {c d e : SseClient σ} (early : Grows c d) (late : Grows d e) : Grows c e := by
  refine ⟨early.written.trans late.written,?_⟩
  intro closed
  have same := early.closed closed
  rw [← same]
  exact late.closed (same ▸ closed)

theorem cleanup_grows (c : SseClient σ) : Grows c (cleanupClient c) := by
  refine ⟨?_,cleanup_leaves c⟩
  unfold cleanupClient
  split <;> exact List.prefix_rfl

theorem push_grows (o : Options) (ready : Bool) (frame : Frame σ) (c : SseClient σ) : Grows c (push o ready frame c) := by
  refine ⟨?_,push_leaves ready frame c⟩
  unfold push
  split
  · exact List.prefix_rfl
  · simp only
    split
    · exact (Outbox.offer_written ready frame).trans (cleanup_grows {c with box := c.box.offer ready frame}).written
    · exact Outbox.offer_written ready frame

theorem flush_grows (ready : Nat → Bool) (c : SseClient σ) : Grows c (flush ready c) := by
  refine ⟨?_,flush_leaves ready c⟩
  unfold flush
  split
  · exact List.prefix_rfl
  · exact Outbox.flush_written ready

end Clients

section Set
variable {s : State σ} {id : Nat} {f : SseClient σ → SseClient σ}

theorem change_streams (i : Nat) : (change id f s).streams i = if i = id then (s.streams i).map f else s.streams i := by
  unfold change
  split
  · rename_i missing
    split
    · rename_i same
      rw [same,missing]
      rfl
    · rfl
  · rename_i c found
    simp only
    split
    · rename_i same
      rw [same,found]
      rfl
    · rfl

theorem change_clients : List.Sublist (change id f s).clients s.clients := by
  unfold change
  split
  · exact List.Sublist.refl _
  · simp only
    split
    · exact List.filter_sublist
    · exact List.Sublist.refl _

@[simp] theorem change_disposed : (change id f s).disposed = s.disposed := by
  unfold change
  split <;> rfl

@[simp] theorem change_log : (change id f s).log = s.log := by
  unfold change
  split <;> rfl

theorem change_roster (leaves : Leaves f) (roster : Roster s) : Roster (change id f s) := by
  refine ⟨?_,roster.unique.sublist change_clients⟩
  intro i
  cases found : s.streams id with
  | none =>
    have same : change id f s = s := by
      unfold change
      rw [found]
    rw [same]
    exact roster.members i
  | some c =>
    have changed : change id f s = {s with
        streams := fun i => if i = id then some (f c) else s.streams i,
        clients := if (f c).closed then s.clients.filter (· ≠ id) else s.clients} := by
      unfold change
      rw [found]
    rw [changed]
    by_cases same : i = id
    · subst same
      simp only [if_true,Option.some.injEq,exists_eq_left']
      split
      · rename_i closed
        simp [closed]
      · rename_i open'
        have before : c.closed = false := by
          cases closed : c.closed with
          | false => rfl
          | true => exact absurd (by rw [leaves c closed,closed]) open'
        have member : i ∈ s.clients := (roster.members i).mpr ⟨c,found,before⟩
        simp [member,open']
    · simp only [same,if_false]
      split
      · simp [same,roster.members i]
      · exact roster.members i

section Fold
variable {f : Nat → SseClient σ → SseClient σ}

theorem changes_streams (unique : ids.Nodup) (s : State σ) (i : Nat) :
    (changes ids f s).streams i = if i ∈ ids then (s.streams i).map (f i) else s.streams i := by
  induction ids generalizing s with
  | nil => rfl
  | cons id rest ih =>
    obtain ⟨apart,others⟩ := List.nodup_cons.mp unique
    have next : (changes (id :: rest) f s).streams i = (changes rest f (change id (f id) s)).streams i := rfl
    rw [next,ih others,change_streams]
    by_cases same : i = id
    · subst same
      simp [apart]
    · simp [same]

theorem changes_clients (ids : List Nat) (s : State σ) : List.Sublist (changes ids f s).clients s.clients := by
  induction ids generalizing s with
  | nil => exact List.Sublist.refl _
  | cons id rest ih =>
    apply (ih (change id (f id) s)).trans
    exact change_clients

@[simp] theorem changes_disposed (ids : List Nat) (s : State σ) : (changes ids f s).disposed = s.disposed := by
  induction ids generalizing s with
  | nil => rfl
  | cons id rest ih =>
    apply (ih (change id (f id) s)).trans
    exact change_disposed

@[simp] theorem changes_log (ids : List Nat) (s : State σ) : (changes ids f s).log = s.log := by
  induction ids generalizing s with
  | nil => rfl
  | cons id rest ih =>
    apply (ih (change id (f id) s)).trans
    exact change_log

theorem changes_roster (leaves : ∀ id, Leaves (f id)) (roster : Roster s) (ids : List Nat) : Roster (changes ids f s) := by
  induction ids generalizing s with
  | nil => exact roster
  | cons id rest ih =>
    apply ih
    exact change_roster (leaves id) roster

end Fold
end Set

section Steps
variable {o : Options} {s after : State σ} {id : Nat}

theorem start_invariant : Invariant o (start (σ := σ)) :=
  ⟨nofun,⟨fun id => by simp [start],List.nodup_nil⟩,Nat.zero_le _,fun _ => rfl⟩

theorem change_invariant (inv : Invariant o s) {f : SseClient σ → SseClient σ} (leaves : Leaves f)
    (delivers : ∀ c, Delivers o s.log c → Delivers o s.log (f c)) (id : Nat) : Invariant o (change id f s) := by
  refine ⟨?_,change_roster leaves inv.roster,Nat.le_trans change_clients.length_le inv.few,?_⟩
  · intro i c found
    rw [change_streams] at found
    rw [change_log]
    split at found
    · obtain ⟨c',was,rfl⟩ := Option.map_eq_some_iff.mp found
      exact delivers c' (inv.streams i c' was)
    · exact inv.streams i c found
  · intro disposed
    rw [change_disposed] at disposed
    have none' : List.Sublist (change id f s).clients s.clients := change_clients
    rw [inv.done disposed] at none'
    exact List.sublist_nil.mp none'

theorem roster_closed (roster : Roster s) (out : id ∉ s.clients) (found : s.streams id = some c) : c.closed = true := by
  cases closed : c.closed with
  | true => rfl
  | false => exact absurd ((roster.members id).mpr ⟨c,found,closed⟩) out

theorem onMutation_streams (inv : Invariant o s) (ready : Nat → Bool) (snapshot : σ) (i : Nat) :
    (onMutation o ready snapshot s).streams i = if i ∈ s.clients then (s.streams i).map (push o (ready i) (.state snapshot)) else s.streams i := by
  unfold onMutation
  split
  · rename_i idle
    have alone : s.clients = [] := idle.elim inv.done (fun alone => alone)
    rw [alone,if_neg List.not_mem_nil]
  · exact changes_streams inv.roster.unique s i

theorem onMutation_roster (roster : Roster s) (ready : Nat → Bool) (snapshot : σ) : Roster (onMutation o ready snapshot s) := by
  unfold onMutation
  split
  · exact roster
  · exact changes_roster (fun id => push_leaves _ _) roster _

theorem onMutation_clients (ready : Nat → Bool) (snapshot : σ) : List.Sublist (onMutation o ready snapshot s).clients s.clients := by
  unfold onMutation
  split
  · exact List.Sublist.refl _
  · exact changes_clients _ _

theorem onMutation_disposed (ready : Nat → Bool) (snapshot : σ) : (onMutation o ready snapshot s).disposed = s.disposed := by
  unfold onMutation
  split
  · rfl
  · exact changes_disposed _ _

theorem mutate_invariant (inv : Invariant o s) (ready : Nat → Bool) (snapshot : σ) :
    Invariant o {onMutation o ready snapshot s with log := s.log ++ [snapshot]} := by
  have roster := onMutation_roster (o := o) inv.roster ready snapshot
  have fewer := onMutation_clients (o := o) (s := s) ready snapshot
  refine ⟨?_,⟨roster.members,roster.unique⟩,Nat.le_trans fewer.length_le inv.few,?_⟩
  · intro i c found
    have streams := onMutation_streams inv ready snapshot i
    rw [show (onMutation o ready snapshot s).streams i = some c from found] at streams
    split at streams
    · rename_i member
      obtain ⟨c',was,open'⟩ := (inv.roster.members i).mp member
      rw [was] at streams
      cases streams
      exact push_delivers (inv.streams i c' was) open' (ready i) (.state snapshot)
    · rename_i out
      exact closed_delivers (inv.streams i c streams.symm) (roster_closed inv.roster out streams.symm) snapshot
  · intro disposed
    have ended : s.disposed = true := (onMutation_disposed ready snapshot).symm.trans disposed
    rw [inv.done ended] at fewer
    exact List.sublist_nil.mp fewer

theorem enter_here (same : i = id) (snapshot : σ) :
    (enter id snapshot s).streams i = some ⟨snapshot,s.log.length,.empty,false,true⟩ := if_pos same

theorem enter_apart (apart : i ≠ id) (snapshot : σ) : (enter id snapshot s).streams i = s.streams i := if_neg apart

theorem accept_invariant (inv : Invariant o s) (fresh : s.streams id = none) (ready : Bool) (snapshot : σ) :
    Invariant o (acceptStream o ready snapshot id s) := by
  unfold acceptStream
  split
  · exact inv
  · rename_i admitted
    obtain ⟨running,room⟩ := not_or.mp admitted
    have out : id ∉ s.clients := by
      intro member
      obtain ⟨c,found,_⟩ := (inv.roster.members id).mp member
      rw [fresh] at found
      cases found
    have roster : Roster (enter id snapshot s) := by
      refine ⟨?_,List.nodup_append.mpr ⟨inv.roster.unique,List.nodup_singleton id,?_⟩⟩
      · intro i
        by_cases same : i = id
        · simp [enter,same]
        · simp [enter,same,inv.roster.members i]
      · intro a member b last equal
        rw [List.mem_singleton.mp last] at equal
        exact out (equal ▸ member)
    refine ⟨?_,change_roster (push_leaves ready _) roster,?_,?_⟩
    · intro i c found
      rw [change_streams] at found
      rw [change_log]
      by_cases same : i = id
      · rw [if_pos same,enter_here same] at found
        cases found
        exact accepted_delivers ready snapshot
      · rw [if_neg same,enter_apart same] at found
        exact inv.streams i c found
    · apply Nat.le_trans change_clients.length_le
      rw [enter,List.length_append]
      exact Nat.lt_of_not_le room
    · intro disposed
      rw [change_disposed] at disposed
      exact absurd disposed running

theorem dispose_invariant (inv : Invariant o s) : Invariant o (dispose s) := by
  unfold dispose
  split
  · exact inv
  · have before : Roster {s with disposed := true} := ⟨inv.roster.members,inv.roster.unique⟩
    have roster := changes_roster (f := fun _ => cleanupClient) (fun _ => cleanup_leaves) before s.clients
    have streams := changes_streams (f := fun _ => cleanupClient) inv.roster.unique {s with disposed := true}
    have delivered : ∀ i c, (changes s.clients (fun _ => cleanupClient) {s with disposed := true}).streams i = some c →
        Delivers o s.log c ∧ c.closed = true := by
      intro i c found
      rw [streams] at found
      split at found
      · obtain ⟨c',was,rfl⟩ := Option.map_eq_some_iff.mp found
        exact ⟨cleanup_delivers (inv.streams i c' was),cleanup_closed⟩
      · rename_i out
        exact ⟨inv.streams i c found,roster_closed inv.roster out found⟩
    refine ⟨?_,roster,Nat.le_trans (changes_clients _ _).length_le inv.few,fun _ => ?_⟩
    · intro i c found
      rw [changes_log]
      exact (delivered i c found).1
    · apply List.eq_nil_iff_forall_not_mem.mpr
      intro i member
      obtain ⟨c,found,open'⟩ := (roster.members i).mp member
      rw [(delivered i c found).2] at open'
      cases open'

theorem advance_invariant (inv : Invariant o s) (event : Event σ) (stepped : advance o s event = some after) : Invariant o after := by
  cases event with
  | connect id snapshot ready =>
    simp only [advance] at stepped
    split at stepped
    · cases stepped
    · rename_i fresh
      cases stepped
      exact accept_invariant inv (by simpa using fresh) ready snapshot
  | mutate snapshot ready =>
    cases stepped
    exact mutate_invariant inv ready snapshot
  | beat id ready =>
    simp only [advance] at stepped
    split at stepped
    · cases stepped
      apply change_invariant inv (push_leaves ready _)
      intro c delivers
      exact beat_delivers delivers ready
    · cases stepped
  | drain id ready =>
    cases stepped
    exact change_invariant inv (flush_leaves ready) (fun c delivers => flush_delivers delivers ready) id
  | close id =>
    cases stepped
    exact change_invariant inv cleanup_leaves (fun c delivers => cleanup_delivers delivers) id
  | dispose =>
    cases stepped
    exact dispose_invariant inv

theorem advance_grows (inv : Invariant o s) (event : Event σ) (stepped : advance o s event = some after)
    (found : s.streams id = some c) : ∃ d, after.streams id = some d ∧ Grows c d := by
  have changed : ∀ {i} {f : SseClient σ → SseClient σ}, (∀ c, Grows c (f c)) →
      ∃ d, (change i f s).streams id = some d ∧ Grows c d := by
    intro i f grows
    rw [change_streams,found]
    split
    · exact ⟨f c,rfl,grows c⟩
    · exact ⟨c,rfl,.refl c⟩
  cases event with
  | connect i snapshot ready =>
    simp only [advance] at stepped
    split at stepped
    · cases stepped
    · rename_i fresh
      cases stepped
      have apart : id ≠ i := by
        intro same
        rw [← same,found] at fresh
        exact fresh rfl
      refine ⟨c,?_,.refl c⟩
      unfold acceptStream
      split
      · exact found
      · rw [change_streams,if_neg apart,enter_apart apart]
        exact found
  | mutate snapshot ready =>
    cases stepped
    have streams := onMutation_streams inv ready snapshot id
    rw [found] at streams
    split at streams
    · exact ⟨_,streams,push_grows _ _ _ c⟩
    · exact ⟨c,streams,.refl c⟩
  | beat i ready =>
    simp only [advance] at stepped
    split at stepped
    · cases stepped
      exact changed (push_grows o ready .heartbeat)
    · cases stepped
  | drain i ready =>
    cases stepped
    exact changed (flush_grows ready)
  | close i =>
    cases stepped
    exact changed cleanup_grows
  | dispose =>
    cases stepped
    unfold dispose
    split
    · exact ⟨c,found,.refl c⟩
    · rw [changes_streams inv.roster.unique]
      split
      · exact ⟨cleanupClient c,by rw [found]; rfl,cleanup_grows c⟩
      · exact ⟨c,found,.refl c⟩

theorem run_invariant (inv : Invariant o s) (path : Run (advance o) Any s events after) : Invariant o after :=
  path.invariant (Invariant o) inv fun _ event _ inv _ stepped => advance_invariant inv event stepped

theorem run_grows (inv : Invariant o s) (path : Run (advance o) Any s events after) (found : s.streams id = some c) :
    ∃ d, after.streams id = some d ∧ Grows c d := by
  induction path generalizing c with
  | nil => exact ⟨c,found,.refl c⟩
  | cons _ stepped _ ih =>
    obtain ⟨d,next,early⟩ := advance_grows inv _ stepped found
    obtain ⟨e,last,late⟩ := ih (advance_invariant inv _ stepped) next
    exact ⟨e,last,early.trans late⟩

-- Over every run each stream is sent the snapshot it was accepted with and then, in order,
-- without gap and without repeat, the changes the routes were told of; an open one has or will
-- have them all. No more than the limit waits for a connection, the open streams are no more
-- than the bound, and what a stream was sent stays sent, whatever comes later.
theorem routes_deliver (early : Run (advance o) Any start events s) (late : Run (advance o) Any s more after) :
    Invariant o s ∧ Invariant o after ∧
    ∀ id c, s.streams id = some c → ∃ d, after.streams id = some d ∧ Grows c d := by
  have inv := run_invariant start_invariant early
  exact ⟨inv,run_invariant inv late,fun id c found => run_grows inv late found⟩

-- One frame may wait. The connection blocks at once, and the first change waits; it drains, and
-- the next change follows.
def demoOptions : Options := ⟨1,1⟩
def demoStream : SseClient Nat := ⟨5,0,⟨[.state 5],[.state 6],true⟩,false,true⟩
def demoEarly : List (Event Nat) := [.connect 0 5 false,.mutate 6 fun _ => true]
def demoLate : List (Event Nat) := [.drain 0 fun _ => true,.mutate 7 fun _ => true]
def demo : State Nat := ((follow (advance demoOptions) Any start demoEarly).getD start)
def demoAfter : State Nat := ((follow (advance demoOptions) Any demo demoLate).getD start)

theorem demo_delivers : Invariant demoOptions demo ∧ Invariant demoOptions demoAfter ∧
    ∃ d, demoAfter.streams 0 = some d ∧ Grows demoStream d ∧ snapshots d.box.written = [5,6,7] := by
  obtain ⟨before,after,kept⟩ := routes_deliver (o := demoOptions) (follow_exact.mp (show follow (advance demoOptions) Any start demoEarly = some demo from rfl))
    (follow_exact.mp (show follow (advance demoOptions) Any demo demoLate = some demoAfter from rfl))
  obtain ⟨d,found,grows⟩ := kept 0 demoStream rfl
  refine ⟨before,after,d,found,grows,?_⟩
  cases found
  rfl

end Steps
end AgentSideCar.RouteStream
