import AgentSideCar.Library.Runs

namespace AgentSideCar.Bus
open Runs
variable {α : Type}

-- What a slot of the queue holds: an event, or the sentinel of a finished subscription.
inductive Slot (α : Type) where
  | event (e : α)
  | closed

def Slot.event? : Slot α → Option α
  | .event e => some e
  | .closed => none

@[simp] theorem event_event (e : α) : (Slot.event e).event? = some e := rfl
@[simp] theorem event_closed : (Slot.closed : Slot α).event? = none := rfl

-- A size of zero leaves the queue unbounded.
structure Options (α : Type) where
  maxsize : Nat
  agents : Option (List String)
  agentOf : α → Option String

-- Where the one that holds the subscription's lock stands, in _offer or in _finish.
inductive Phase (α : Type) where
  | free
  | offering (e : α)
  | refused (e : α)
  | evicted (e : α)
  | counted (e : α)
  | closing
  | closingRefused
  | closingEvicted

inductive Fate where | delivered | dropped
  deriving DecidableEq

-- The subscription's fields, then which events it accepted and which left the queue how.
structure State (α : Type) where
  queue : List (Slot α) := []
  closed : Bool := false
  dropped : Nat := 0
  phase : Phase α := .free
  accepted : List α := []
  taken : List (Fate × α) := []

inductive Event (α : Type) where
  | offer (e : α)
  | finish
  | step
  | get

variable {o : Options α} {s : State α} {e : α}

def full (o : Options α) (s : State α) : Bool := decide (0 < o.maxsize ∧ o.maxsize ≤ s.queue.length)

def selects (o : Options α) (e : α) : Bool :=
  match o.agents with
  | none => true
  | some names => (o.agentOf e).any (· ∈ names)

-- What is put where there is room for it lets go of the lock.
def put (o : Options α) (slot : Slot α) (refused : Phase α) (s : State α) : State α :=
  if full o s then {s with phase := refused} else {s with queue := s.queue ++ [slot],phase := .free}

-- One get takes the oldest slot; an empty queue is left as it is.
def take (fate : Fate) (s : State α) : State α :=
  match s.queue with
  | [] => s
  | slot :: rest => {s with queue := rest,taken := s.taken ++ (slot.event?.map (fate,·)).toList}

def offer (o : Options α) (e : α) (s : State α) : State α :=
  if !selects o e || s.closed then s else {s with phase := .offering e,accepted := s.accepted ++ [e]}

def finish (s : State α) : State α := if s.closed then s else {s with closed := true,phase := .closing}

-- The next queue operation or the next assignment of the one that holds the lock.
def step (o : Options α) (s : State α) : Option (State α) :=
  match s.phase with
  | .free => none
  | .offering e => some (put o (.event e) (.refused e) s)
  | .refused e => some {take .dropped s with phase := .evicted e}
  | .evicted e => some {s with dropped := s.dropped + 1,phase := .counted e}
  | .counted e =>
    if full o s then some {s with dropped := s.dropped + 1,phase := .free,taken := s.taken ++ [(.dropped,e)]}
    else some (put o (.event e) .free s)
  | .closing => some (put o .closed .closingRefused s)
  | .closingRefused => some {take .dropped s with phase := .closingEvicted}
  | .closingEvicted => some (put o .closed .free s)

-- The lock lets one offer or finish in at a time; a get needs only the queue.
def advance (o : Options α) (s : State α) : Event α → Option (State α)
  | .offer e => match s.phase with
    | .free => some (offer o e s)
    | _ => none
  | .finish => match s.phase with
    | .free => some (finish s)
    | _ => none
  | .step => step o s
  | .get => some (take .delivered s)

def queued (s : State α) : List α := s.queue.filterMap Slot.event?

-- The event that is still being put.
def inFlight (s : State α) : List α :=
  match s.phase with
  | .offering e => [e]
  | .refused e => [e]
  | .evicted e => [e]
  | .counted e => [e]
  | _ => []

def leftBy (fate : Fate) (s : State α) : List α := (s.taken.filter (·.1 = fate)).map Prod.snd

-- An eviction the counter is still to be told of.
def uncounted (s : State α) : Nat :=
  match s.phase with
  | .evicted _ => 1
  | _ => 0

-- The second put of a publish or a finish finds room.
def Roomy (o : Options α) (s : State α) : Prop :=
  match s.phase with
  | .evicted _ => full o s = false
  | .counted _ => full o s = false
  | .closingEvicted => full o s = false
  | _ => True

structure Kept (o : Options α) (s : State α) : Prop where
  split : s.accepted = s.taken.map Prod.snd ++ (queued s ++ inFlight s)
  bounded : 0 < o.maxsize → s.queue.length ≤ o.maxsize
  roomy : Roomy o s

theorem take_frame (fate : Fate) (s : State α) : (take fate s).phase = s.phase ∧ (take fate s).accepted = s.accepted ∧
    (take fate s).dropped = s.dropped ∧ (take fate s).closed = s.closed := by
  unfold take
  split <;> exact ⟨rfl,rfl,rfl,rfl⟩

theorem take_queue (fate : Fate) (s : State α) : (take fate s).queue = s.queue.tail := by
  unfold take
  split
  · rename_i empty
    rw [empty]
    rfl
  · rename_i shape
    rw [shape]
    rfl

theorem take_split (fate : Fate) (s : State α) :
    (take fate s).taken.map Prod.snd ++ queued (take fate s) = s.taken.map Prod.snd ++ queued s := by
  unfold take
  split
  · rfl
  · rename_i slot rest shape
    cases slot with
    | event e => simp [queued,shape]
    | closed => simp [queued,shape,List.filterMap_cons]

theorem full_take (fate : Fate) (few : 0 < o.maxsize → s.queue.length ≤ o.maxsize) : full o (take fate s) = false := by
  rw [full,take_queue,decide_eq_false_iff_not,List.length_tail]
  omega

theorem full_tail (fate : Fate) (room : full o s = false) : full o (take fate s) = false := by
  rw [full,decide_eq_false_iff_not] at room ⊢
  rw [take_queue,List.length_tail]
  omega

theorem queued_snoc (slot : Slot α) : (s.queue ++ [slot]).filterMap Slot.event? = queued s ++ slot.event?.toList := by
  rw [List.filterMap_append,queued]
  cases slot <;> rfl

theorem joined_kept (slot : Slot α) (kept : Kept o s) (room : full o s = false) (own : slot.event?.toList = inFlight s) :
    Kept o {s with queue := s.queue ++ [slot],phase := .free} := by
  refine ⟨?_,fun bound => ?_,trivial⟩
  · rw [queued,queued_snoc,own,kept.split]
    simp [inFlight]
  · rw [full,decide_eq_false_iff_not] at room
    simp only [List.length_append,List.length_singleton]
    omega

theorem take_kept (kept : Kept o s) (fate : Fate) : Kept o (take fate s) := by
  obtain ⟨phase,accepted,_⟩ := take_frame fate s
  have same : inFlight (take fate s) = inFlight s := by rw [inFlight,inFlight,phase]
  refine ⟨?_,fun bound => ?_,?_⟩
  · rw [accepted,same,← List.append_assoc,take_split,List.append_assoc]
    exact kept.split
  · have few := kept.bounded bound
    rw [take_queue,List.length_tail]
    omega
  · have roomy := kept.roomy
    unfold Roomy at roomy ⊢
    rw [phase]
    split at roomy
    · exact full_tail fate roomy
    · exact full_tail fate roomy
    · exact full_tail fate roomy
    · trivial

theorem evicted_kept (kept : Kept o s) (next : Phase α) (same : ∀ t : State α, t.phase = next → inFlight t = inFlight s) :
    Kept o {take .dropped s with phase := next} := by
  have taken := take_kept kept .dropped
  have room := full_take (o := o) .dropped kept.bounded
  refine ⟨?_,taken.bounded,?_⟩
  · have frame := take_frame .dropped s
    have old : inFlight (take .dropped s) = inFlight s := by rw [inFlight,inFlight,frame.1]
    rw [same _ rfl,← old]
    exact taken.split
  · unfold Roomy
    split
    · exact room
    · exact room
    · exact room
    · trivial

theorem step_kept (kept : Kept o s) (stepped : step o s = some after) : Kept o after := by
  have split := kept.split
  have roomy := kept.roomy
  unfold step at stepped
  unfold Roomy at roomy
  cases phase : s.phase with
  | free => simp [phase] at stepped
  | offering e =>
    simp only [phase,put,Option.some.injEq] at stepped
    subst stepped
    split
    · exact ⟨by rw [split,inFlight,phase]; rfl,kept.bounded,trivial⟩
    · rename_i room
      exact joined_kept _ kept (by simpa using room) (by simp [inFlight,phase])
  | refused e =>
    simp only [phase,Option.some.injEq] at stepped
    subst stepped
    exact evicted_kept kept _ fun t same => by simp [inFlight,same,phase]
  | evicted e =>
    simp only [phase,Option.some.injEq] at stepped roomy
    subst stepped
    exact ⟨by rw [split,inFlight,phase]; rfl,kept.bounded,roomy⟩
  | counted e =>
    simp only [phase] at stepped roomy
    rw [if_neg (by simp [roomy]),put,if_neg (by simp [roomy]),Option.some.injEq] at stepped
    subst stepped
    exact joined_kept _ kept roomy (by simp [inFlight,phase])
  | closing =>
    simp only [phase,put,Option.some.injEq] at stepped
    subst stepped
    split
    · exact ⟨by rw [split,inFlight,phase]; rfl,kept.bounded,trivial⟩
    · rename_i room
      exact joined_kept _ kept (by simpa using room) (by simp [inFlight,phase])
  | closingRefused =>
    simp only [phase,Option.some.injEq] at stepped
    subst stepped
    exact evicted_kept kept _ fun t same => by simp [inFlight,same,phase]
  | closingEvicted =>
    simp only [phase,Option.some.injEq] at stepped roomy
    subst stepped
    rw [put,if_neg (by simp [roomy])]
    exact joined_kept _ kept roomy (by simp [inFlight,phase])

theorem offer_kept (kept : Kept o s) (phase : s.phase = .free) : Kept o (offer o e s) := by
  unfold offer
  split
  · exact kept
  · refine ⟨?_,kept.bounded,trivial⟩
    have split := kept.split
    simp only [inFlight,phase,List.append_nil] at split
    simp [inFlight,split,queued]

theorem finish_kept (kept : Kept o s) (phase : s.phase = .free) : Kept o (finish s) := by
  unfold finish
  split
  · exact kept
  · refine ⟨?_,kept.bounded,trivial⟩
    have split := kept.split
    simp only [inFlight,phase,List.append_nil] at split
    simp [inFlight,split,queued]

theorem advance_kept (kept : Kept o s) (accepted : advance o s event = some after) : Kept o after := by
  cases event with
  | offer e =>
    simp only [advance] at accepted
    split at accepted
    · rename_i phase
      cases accepted
      exact offer_kept kept phase
    · cases accepted
  | finish =>
    simp only [advance] at accepted
    split at accepted
    · rename_i phase
      cases accepted
      exact finish_kept kept phase
    · cases accepted
  | step => exact step_kept kept accepted
  | get =>
    cases accepted
    exact take_kept kept .delivered

-- The sentinel is in the queue of a finished subscription only, and nobody puts after it.
structure Sealed (s : State α) : Prop where
  last : Slot.closed ∈ s.queue → s.closed = true ∧ s.phase = .free
  finishing : s.phase = .closing ∨ s.phase = .closingRefused ∨ s.phase = .closingEvicted → s.closed = true

theorem take_sealed (seals : Sealed s) (fate : Fate) : Sealed (take fate s) := by
  obtain ⟨phase,_,_,closed⟩ := take_frame fate s
  refine ⟨fun inside => ?_,?_⟩
  · rw [closed,phase]
    rw [take_queue] at inside
    exact seals.last (List.mem_of_mem_tail inside)
  · rw [phase,closed]
    exact seals.finishing

-- Whoever holds the lock finds no sentinel.
theorem clear_sealed (clear : Slot.closed ∉ t.queue) (finishing : t.phase = .closing ∨ t.phase = .closingRefused ∨
    t.phase = .closingEvicted → t.closed = true) : Sealed t :=
  ⟨fun inside => absurd inside clear,finishing⟩

theorem step_sealed (seals : Sealed s) (stepped : step o s = some after) : Sealed after := by
  have finishing := seals.finishing
  have clear : s.phase ≠ .free → Slot.closed ∉ s.queue := fun held inside => held (seals.last inside).2
  have taken : s.phase ≠ .free → Slot.closed ∉ (take .dropped s).queue := fun held inside => by
    rw [take_queue] at inside
    exact clear held (List.mem_of_mem_tail inside)
  unfold step put at stepped
  cases phase : s.phase with
  | free => simp [phase] at stepped
  | offering e =>
    have none' := clear (by simp [phase])
    simp only [phase,Option.some.injEq] at stepped
    subst stepped
    split
    · exact clear_sealed none' (by simp)
    · exact clear_sealed (by simpa using none') (by simp)
  | refused e =>
    simp only [phase,Option.some.injEq] at stepped
    subst stepped
    exact clear_sealed (taken (by simp [phase])) (by simp)
  | evicted e =>
    simp only [phase,Option.some.injEq] at stepped
    subst stepped
    exact clear_sealed (clear (by simp [phase])) (by simp)
  | counted e =>
    have none' := clear (by simp [phase])
    simp only [phase] at stepped
    split at stepped
    · cases stepped
      exact clear_sealed none' (by simp)
    · cases stepped
      exact clear_sealed (by simpa using none') (by simp)
  | closing =>
    have done := finishing (.inl phase)
    simp only [phase,Option.some.injEq] at stepped
    subst stepped
    split
    · exact clear_sealed (clear (by simp [phase])) fun _ => done
    · exact ⟨fun _ => ⟨done,rfl⟩,fun _ => done⟩
  | closingRefused =>
    have done := finishing (.inr (.inl phase))
    simp only [phase,Option.some.injEq] at stepped
    subst stepped
    exact clear_sealed (taken (by simp [phase])) fun _ => (take_frame .dropped s).2.2.2.trans done
  | closingEvicted =>
    have done := finishing (.inr (.inr phase))
    simp only [phase,Option.some.injEq] at stepped
    subst stepped
    split
    · exact ⟨fun _ => ⟨done,rfl⟩,fun _ => done⟩
    · exact ⟨fun _ => ⟨done,rfl⟩,fun _ => done⟩

theorem advance_sealed (seals : Sealed s) (accepted : advance o s event = some after) : Sealed after := by
  cases event with
  | offer e =>
    simp only [advance] at accepted
    split at accepted
    · cases accepted
      unfold offer
      split
      · exact seals
      · rename_i open'
        simp only [Bool.or_eq_true,Bool.not_eq_true',not_or,Bool.not_eq_true] at open'
        refine clear_sealed (fun inside => ?_) (by simp)
        have := (seals.last inside).1
        rw [open'.2] at this
        cases this
    · cases accepted
  | finish =>
    simp only [advance] at accepted
    split at accepted
    · cases accepted
      unfold finish
      split
      · exact seals
      · rename_i open'
        exact clear_sealed (fun inside => open' (seals.last inside).1) fun _ => rfl
    · cases accepted
  | step => exact step_sealed seals accepted
  | get =>
    cases accepted
    exact take_sealed seals .delivered

-- A publish that comes to evict finds an event to evict, and a finish finds none.
def Counts (s : State α) : Event α → Prop
  | .step => match s.phase with
    | .refused _ => s.queue ≠ []
    | .closingRefused => s.queue = []
    | _ => True
  | _ => True

def Told (s : State α) : Prop := s.dropped + uncounted s = (leftBy .dropped s).length

theorem leftBy_delivered (s : State α) : leftBy .dropped (take .delivered s) = leftBy .dropped s := by
  unfold take leftBy
  split
  · rfl
  · rename_i slot rest _
    cases slot <;> simp

theorem leftBy_dropped (shape : s.queue = .event e :: rest) : leftBy .dropped (take .dropped s) = leftBy .dropped s ++ [e] := by
  unfold take leftBy
  rw [shape]
  simp

theorem step_told (kept : Kept o s) (seals : Sealed s) (told : Told s) (counts : Counts s .step)
    (stepped : step o s = some after) : Told after := by
  have roomy := kept.roomy
  unfold Told uncounted at told ⊢
  unfold step put at stepped
  unfold Roomy at roomy
  unfold Counts at counts
  cases phase : s.phase with
  | free => simp [phase] at stepped
  | offering e =>
    simp only [phase,Option.some.injEq] at stepped told
    subst stepped
    split <;> exact told
  | refused e =>
    simp only [phase,Option.some.injEq] at stepped told counts
    subst stepped
    obtain ⟨slot,rest,shape⟩ := List.exists_cons_of_ne_nil counts
    cases slot with
    | event old =>
      have grown := leftBy_dropped shape
      unfold leftBy at grown told ⊢
      simp only [(take_frame .dropped s).2.2.1]
      rw [grown,List.length_append,← told]
      rfl
    | closed =>
      have held := (seals.last (shape ▸ List.mem_cons_self)).2
      rw [phase] at held
      cases held
  | evicted e =>
    simp only [phase,Option.some.injEq] at stepped told
    subst stepped
    exact told
  | counted e =>
    simp only [phase] at stepped roomy told
    rw [if_neg (by simp [roomy]),if_neg (by simp [roomy]),Option.some.injEq] at stepped
    subst stepped
    exact told
  | closing =>
    simp only [phase,Option.some.injEq] at stepped told
    subst stepped
    split <;> exact told
  | closingRefused =>
    simp only [phase,Option.some.injEq] at stepped told counts
    subst stepped
    have same : take .dropped s = s := by rw [take,counts]
    rw [same]
    exact told
  | closingEvicted =>
    simp only [phase,Option.some.injEq] at stepped told
    subst stepped
    split <;> exact told

theorem advance_told (kept : Kept o s) (seals : Sealed s) (told : Told s) (counts : Counts s event)
    (accepted : advance o s event = some after) : Told after := by
  cases event with
  | offer e =>
    simp only [advance] at accepted
    split at accepted
    · rename_i phase
      cases accepted
      unfold offer
      split
      · exact told
      · simpa [Told,uncounted,phase,leftBy] using told
    · cases accepted
  | finish =>
    simp only [advance] at accepted
    split at accepted
    · rename_i phase
      cases accepted
      unfold finish
      split
      · exact told
      · simpa [Told,uncounted,phase,leftBy] using told
    · cases accepted
  | step => exact step_told kept seals told counts accepted
  | get =>
    cases accepted
    obtain ⟨phase,_,dropped,_⟩ := take_frame .delivered s
    have same : uncounted (take .delivered s) = uncounted s := by rw [uncounted,uncounted,phase]
    rw [Told,leftBy_delivered,dropped,same]
    exact told

theorem initial_kept (o : Options α) : Kept o {} := ⟨rfl,fun _ => Nat.zero_le _,trivial⟩

theorem initial_sealed : Sealed ({} : State α) := ⟨nofun,nofun⟩

theorem run_kept (path : Run (advance o) allowed {} events s) : Kept o s :=
  path.invariant (Kept o) (initial_kept o) fun _ _ _ kept _ accepted => advance_kept kept accepted

theorem run_told (path : Run (advance o) Counts {} events s) : Told s := by
  have all : Kept o s ∧ Sealed s ∧ Told s := by
    refine path.invariant (fun s => Kept o s ∧ Sealed s ∧ Told s) ⟨initial_kept o,initial_sealed,rfl⟩ ?_
    rintro before event after ⟨kept,seals,told⟩ counts accepted
    exact ⟨advance_kept kept accepted,advance_sealed seals accepted,advance_told kept seals told counts accepted⟩
  exact all.2.2

-- The accepted events in order, each with what became of it.
def fates (s : State α) : List (Option Fate × α) :=
  s.taken.map (fun t => (some t.1,t.2)) ++ (queued s ++ inFlight s).map (none,·)

def undelivered (s : State α) : List α := ((fates s).filter (·.1 ≠ some .delivered)).map Prod.snd

theorem fates_exact (kept : Kept o s) : (fates s).map Prod.snd = s.accepted := by
  rw [kept.split,fates,List.map_append,List.map_map,List.map_map]
  exact congrArg₂ (· ++ ·) rfl (List.map_id _)

theorem newest_queued (s : State α) : undelivered s = leftBy .dropped s ++ (queued s ++ inFlight s) := by
  have waiting : ∀ l : List α, ((l.map ((none : Option Fate),·)).filter (·.1 ≠ some .delivered)).map Prod.snd = l := by
    intro l
    rw [List.filter_eq_self.mpr fun entry inside => ?_,List.map_map]
    · exact List.map_id l
    · obtain ⟨e,_,rfl⟩ := List.mem_map.mp inside
      rfl
  rw [undelivered,fates,List.filter_append,List.map_append,waiting,leftBy,List.filter_map,List.map_map]
  refine congrArg₂ (· ++ ·) ?_ rfl
  refine congrArg₂ List.map rfl (List.filter_congr fun entry _ => ?_)
  rcases entry with ⟨fate,e⟩
  cases fate <;> rfl

-- In any interleaving an accepted event is delivered, dropped or queued, and the queue is
-- the newest of what is not delivered; where every eviction is a publish's, and evicts, the
-- counter tells how many events were dropped.
theorem evictions_counted (o : Options α) :
    (∀ events s, Run (advance o) Any {} events s → (fates s).map Prod.snd = s.accepted ∧
      queued s ++ inFlight s <:+ undelivered s ∧ (0 < o.maxsize → s.queue.length ≤ o.maxsize)) ∧
    ∀ events s, Run (advance o) Counts {} events s → s.dropped + uncounted s = (leftBy .dropped s).length := by
  refine ⟨fun events s path => ?_,fun events s path => run_told path⟩
  have kept := run_kept path
  refine ⟨fates_exact kept,?_,kept.bounded⟩
  rw [newest_queued]
  exact List.suffix_append _ _

def oneSlot : Options Nat := ⟨1,none,fun _ => none⟩

theorem evictions_counted_once : ∃ s, Run (advance oneSlot) Counts {}
    [.offer 1,.step,.offer 2,.step,.step,.step,.step,.get] s ∧ s.dropped + uncounted s = (leftBy .dropped s).length ∧
      leftBy .dropped s = [1] ∧ leftBy .delivered s = [2] := by
  have path : Run (advance oneSlot) Counts {} [.offer 1,.step,.offer 2,.step,.step,.step,.step,.get] _ :=
    .cons trivial rfl (.cons trivial rfl (.cons trivial rfl (.cons trivial rfl (.cons (List.cons_ne_nil _ _) rfl
      (.cons trivial rfl (.cons trivial rfl (.cons trivial rfl .nil)))))))
  exact ⟨_,path,(evictions_counted oneSlot).2 _ _ path,rfl,rfl⟩

-- The consumer takes the one queued event before the publish comes to evict it; and a
-- finish evicts the one queued event.
theorem evictions_miscounted :
    (∃ s, Run (advance oneSlot) Any {} [.offer 1,.step,.offer 2,.step,.get,.step,.step,.step] s ∧
      s.phase = .free ∧ s.dropped = 1 ∧ leftBy .dropped s = []) ∧
    ∃ s, Run (advance oneSlot) Any {} [.offer 1,.step,.finish,.step,.step,.step] s ∧
      s.phase = .free ∧ s.dropped = 0 ∧ leftBy .dropped s = [1] := by
  constructor
  · exact ⟨_,.cons trivial rfl (.cons trivial rfl (.cons trivial rfl (.cons trivial rfl (.cons trivial rfl
      (.cons trivial rfl (.cons trivial rfl (.cons trivial rfl .nil))))))),rfl,rfl,rfl⟩
  · exact ⟨_,.cons trivial rfl (.cons trivial rfl (.cons trivial rfl (.cons trivial rfl (.cons trivial rfl
      (.cons trivial rfl .nil))))),rfl,rfl,rfl⟩

end AgentSideCar.Bus
