import AgentSideCar.Library.Dict
import AgentSideCar.Library.Runs

namespace AgentSideCar.DshInject
open Runs
variable {γ : Type} [DecidableEq γ]
set_option linter.unusedSectionVars false

inductive ErrorCode where
  | targetNotFound | dshModelUnconfigured | dshPresetUnsupported | dshAgentsUnavailable | executorError | timeout
  deriving DecidableEq
inductive InjectResult where
  | delivered
  | failed (errorCode : ErrorCode)
  deriving DecidableEq

inductive WaitOutcome where
  | agent (agent : Nat)
  | failed (errorCode : ErrorCode)
  | timeout
  | stale
  deriving DecidableEq
inductive ResumeOutcome where
  | wait (outcome : WaitOutcome)
  | retireFailed
  deriving DecidableEq
inductive RetirementResult where | retired | failed
  deriving DecidableEq

-- Slots name the operation, the handle or the retirement they stand for; each is made once,
-- so that the name is the object's identity.
inductive ResumeSlot (γ : Type) where
  | resuming (operation : Nat) (generation : γ)
  | fulfilled (handle agent : Nat) (generation : γ)
  | retiring (settlement : Nat) (generation : γ)
  deriving DecidableEq

def ResumeSlot.generation : ResumeSlot γ → γ
  | .resuming _ g => g
  | .fulfilled _ _ g => g
  | .retiring _ g => g

-- Where an operation stands: before agents.resume settles, disposing of a handle that nobody
-- takes, inspecting the session once more, or settled.
inductive Stage where
  | pending
  | disposing (outcome : WaitOutcome)
  | inspecting
  | settled (outcome : ResumeOutcome)
  deriving DecidableEq

-- `free`: whether the session had no slot when agents.resume was called.
structure Operation (γ : Type) where
  sessionId : String
  generation : γ
  stage : Stage
  free : Bool
  deriving DecidableEq

inductive Source where
  | operation (operation : Nat)
  | handle (handle : Nat)
  deriving DecidableEq
structure Retirement where
  sessionId : String
  source : Source
  result : Option RetirementResult
  deriving DecidableEq

-- An AgentHandle that agents.resume resolved with, and how often dispose was called on it.
structure AgentHandle where
  sessionId : String
  agent : Nat
  disposals : Nat
  deriving DecidableEq

inductive ColdCheck (γ : Type) where
  | ready (generation : γ)
  | live (agent : Nat) (generation : γ)
  | failed (errorCode : ErrorCode)
inductive SlotWait (γ : Type) where
  | settlement (settlement : Nat)
  | operation (operation : Nat) (generation : γ)
  | answered (outcome : WaitOutcome)
-- What a suspended call awaits: a slot with its generation, the inspection of the stored
-- session in checkCold's attempts, or checkCold's answer.
inductive Await (γ : Type) where
  | slot (wait : SlotWait γ) (generation : γ)
  | inspection (remaining : Nat) (generation : γ)
  | checked (check : ColdCheck γ)

inductive Method where | preflight | execute
  deriving DecidableEq
structure Call where
  method : Method
  sessionId : String
  remaining : Nat
  deadline : Bool
inductive Answer where
  | preflight (errorCode : Option ErrorCode)
  | execute (result : InjectResult)
  | threw (method : Method)
  deriving DecidableEq

structure DshInjectExecutor (γ : Type) where
  slots : Dict String (ResumeSlot γ) := Dict.empty
  generationInvalidations : Dict γ (List Nat) := Dict.empty
  unloading : Bool := false
  disposePromise : Option (List Nat) := none
  cleared : Bool := false
  operations : List (Operation γ) := []
  retirements : List Retirement := []
  handles : List AgentHandle := []
  calls : List (Call × Await γ) := []
  answers : List Answer := []

-- What the host answers during one step: the mounted generation, whether the agents are
-- available, the live agent of a session (none where the lookup throws), whether the default
-- model is a complete pair, whether the call's deadline has passed, whether the splice throws.
structure Host (γ : Type) where
  generation : Option γ
  available : Bool
  live : String → Option (Option Nat)
  routed : Bool
  expired : Bool
  throws : Bool

inductive PresetState where | absent | present | missing | unknown
  deriving DecidableEq
-- resolveColdPreset before the deadline.
inductive Inspected where
  | value (state : PresetState)
  | error
  | timeout
  deriving DecidableEq

section Slots
variable (s : DshInjectExecutor γ)

def answer (a : Answer) : DshInjectExecutor γ := {s with answers := s.answers ++ [a]}
def suspend (call : Call) (await : Await γ) : DshInjectExecutor γ := {s with calls := s.calls ++ [({call with deadline := true},await)]}
def settleOperation (op : Nat) (stage : Stage) : DshInjectExecutor γ :=
  {s with operations := s.operations.modify op fun o => {o with stage := stage}}
def disposeHandle (h : Nat) : DshInjectExecutor γ :=
  {s with handles := s.handles.modify h fun r => {r with disposals := r.disposals + 1}}

-- The retirement of a slot, under the number that its tombstone has in the map.
def entomb (sessionId : String) (generation : γ) (source : Source) : DshInjectExecutor γ × Nat :=
  ({s with
    slots := s.slots.set sessionId (.retiring s.retirements.length generation)
    retirements := s.retirements ++ [⟨sessionId,source,none⟩]},s.retirements.length)

def beginRetirement (sessionId : String) (slot : ResumeSlot γ) : DshInjectExecutor γ × Nat :=
  match s.slots.get sessionId,slot with
  | some (.retiring t _),_ => (s,t)
  | _,.retiring t _ => (s,t)
  | _,.resuming op g => entomb s sessionId g (.operation op)
  | _,.fulfilled h _ g => entomb (disposeHandle s h) sessionId g (.handle h)

def retireAll : List (String × ResumeSlot γ) → DshInjectExecutor γ → DshInjectExecutor γ × List Nat
  | [],s => (s,[])
  | (sessionId,slot) :: rest,s =>
    let one := beginRetirement s sessionId slot
    let others := retireAll rest one.1
    (others.1,one.2 :: others.2)

-- Each generation's clean-up awaits the retirements it lists.
def invalidateGeneration (g : γ) : DshInjectExecutor γ :=
  match s.generationInvalidations.get g with
  | some _ => s
  | none =>
    let retired := retireAll (s.slots.entries.filter fun e => e.2.generation = g) s
    {retired.1 with generationInvalidations := s.generationInvalidations.set g retired.2}

def usableSlot (host : Host γ) (sessionId : String) : DshInjectExecutor γ × Option (ResumeSlot γ) :=
  match s.slots.get sessionId with
  | none => (s,none)
  | some (.retiring t g) => (s,some (.retiring t g))
  | some slot =>
    if host.generation ≠ some slot.generation then
      let s := invalidateGeneration s slot.generation
      (s,s.slots.get sessionId)
    else match slot with
      | .fulfilled _ agent _ =>
        if host.live sessionId = some (some agent) then (s,some slot)
        else
          let s := (beginRetirement s sessionId slot).1
          (s,s.slots.get sessionId)
      | _ => (s,some slot)

def invalidateAll : List γ → DshInjectExecutor γ → DshInjectExecutor γ
  | [],s => s
  | g :: rest,s => invalidateAll rest (invalidateGeneration s g)

def disposeSlots : DshInjectExecutor γ :=
  if s.disposePromise.isSome then s
  else
    let generations := (s.slots.values.map ResumeSlot.generation).eraseDups
    let s := invalidateAll generations {s with unloading := true}
    {s with disposePromise := some (generations.flatMap fun g => (s.generationInvalidations.get g).getD [])}

def startResumeSlot (sessionId : String) (g : γ) : DshInjectExecutor γ :=
  {s with
    operations := s.operations ++ [⟨sessionId,g,.pending,(s.slots.get sessionId).isNone⟩]
    slots := s.slots.set sessionId (.resuming s.operations.length g)}

-- agents.resume resolves.
def resumed (host : Host γ) (op : Nat) (o : Operation γ) (agent : Nat) : DshInjectExecutor γ :=
  if s.unloading then
    settleOperation {s with handles := s.handles ++ [⟨o.sessionId,agent,1⟩]} op (.disposing (.failed .executorError))
  else if host.generation ≠ some o.generation ∨ s.slots.get o.sessionId ≠ some (.resuming op o.generation) then
    settleOperation {s with handles := s.handles ++ [⟨o.sessionId,agent,1⟩]} op (.disposing .stale)
  else
    settleOperation {s with
      handles := s.handles ++ [⟨o.sessionId,agent,0⟩]
      slots := s.slots.set o.sessionId (.fulfilled s.handles.length agent o.generation)} op (.settled (.wait (.agent agent)))

-- agents.resume rejects, perhaps with the guard's own error code.
def rejected (inspects : Bool) (host : Host γ) (op : Nat) (o : Operation γ) (guarded : Option ErrorCode) : DshInjectExecutor γ :=
  let s := if s.slots.get o.sessionId = some (.resuming op o.generation) then {s with slots := s.slots.erase o.sessionId} else s
  settleOperation s op <|
    if s.unloading then .settled (.wait (.failed .executorError))
    else if host.generation ≠ some o.generation then .settled (.wait .stale)
    else match guarded with
      | some errorCode => .settled (.wait (.failed errorCode))
      | none => match host.live o.sessionId with
        | none => .settled (.wait (.failed .executorError))
        | some (some winner) => .settled (.wait (.agent winner))
        | some none =>
          if host.expired then .settled (.wait .timeout)
          else if inspects then .inspecting
          else .settled (.wait (.failed .executorError))

-- The inspection that follows a rejection.
def reinspected (host : Host γ) (op : Nat) (o : Operation γ) (inspected : Inspected) : DshInjectExecutor γ :=
  settleOperation s op <| .settled <| .wait <|
    if inspected = .timeout then .timeout
    else if host.generation ≠ some o.generation then .stale
    else match host.live o.sessionId with
      | none => .failed .executorError
      | some (some winner) => .agent winner
      | some none => match inspected with
        | .value .missing => .failed .targetNotFound
        | .value .present => .failed .dshPresetUnsupported
        | _ => .failed .executorError

def retirementSettles (t : Nat) (r : Retirement) (result : RetirementResult) : DshInjectExecutor γ :=
  let s := {s with retirements := s.retirements.set t {r with result := some result}}
  match s.slots.get r.sessionId with
  | some (.retiring u _) => if u = t then {s with slots := s.slots.erase r.sessionId} else s
  | _ => s

end Slots

section Calls
variable (inspects : Bool) (host : Host γ)

def waitForSlot (slot : ResumeSlot γ) : SlotWait γ :=
  match slot with
  | .retiring t _ => .settlement t
  | .fulfilled _ agent g => if host.generation ≠ some g then .answered .stale else .answered (.agent agent)
  | .resuming op g => if host.generation ≠ some g then .answered .stale else .operation op g

-- checkCold up to its first await, with so many attempts left.
def checkCold (unloading : Bool) : Nat → Await γ
  | 0 => .checked (.failed .executorError)
  | remaining + 1 => match host.generation with
    | none => .checked (.failed .dshAgentsUnavailable)
    | some g =>
      if unloading || !host.available then .checked (.failed .dshAgentsUnavailable)
      else if !inspects then .checked (.failed .executorError)
      else .inspection remaining g

def inspection (unloading : Bool) (timeoutCode : ErrorCode) (sessionId : String) (remaining : Nat) (g : γ) (inspected : Inspected) :
    Await γ :=
  if inspected = .timeout then .checked (.failed timeoutCode)
  else if host.generation ≠ some g then checkCold inspects host unloading remaining
  else match host.live sessionId with
    | none => .checked (.failed .executorError)
    | some (some agent) => .checked (.live agent g)
    | some none => match inspected with
      | .value .missing => .checked (.failed .targetNotFound)
      | .value .absent => .checked <|
          if !host.available then .failed .dshAgentsUnavailable
          else if !host.routed then .failed .dshModelUnconfigured
          else .ready g
      | .value .present => .checked (.failed (if !host.available then .dshAgentsUnavailable else .dshPresetUnsupported))
      | _ => .checked (.failed .executorError)

-- The loop is over: the last agent found, if any, is spoken to.
def deliver (agent : Option Nat) (s : DshInjectExecutor γ) : DshInjectExecutor γ :=
  match agent with
  | none => answer s (.execute (.failed .executorError))
  | some _ => answer s (.execute (if host.throws then .failed .executorError else .delivered))

-- The end of an iteration; `again` is the next one.
def conclude (again : Option Nat → DshInjectExecutor γ → DshInjectExecutor γ) (call : Call) (agent : Option Nat)
    (selected : Option γ) (s : DshInjectExecutor γ) : DshInjectExecutor γ :=
  if call.deadline && host.expired then answer s (.execute (.failed .timeout))
  else if selected.isSome && decide (selected ≠ host.generation) then again agent s
  else match agent with
    | some agent => deliver host (some agent) s
    | none => again none s

-- The iterations of execute's loop up to an await; `last` is what the iteration before found.
def select (call : Call) : Nat → Option Nat → DshInjectExecutor γ → DshInjectExecutor γ
  | 0,last,s => deliver host last s
  | remaining + 1,_,s =>
    let used := usableSlot s host call.sessionId
    match used.2 with
    | some (.fulfilled _ agent g) => conclude host (select call remaining) call (some agent) (some g) used.1
    | some slot => suspend used.1 {call with remaining := remaining} (.slot (waitForSlot host slot) slot.generation)
    | none => match host.live call.sessionId with
      | none => answer used.1 (.threw .execute)
      | some (some agent) => conclude host (select call remaining) call (some agent) none used.1
      | some none => suspend used.1 {call with remaining := remaining} (checkCold inspects host used.1.unloading 3)

def execute (sessionId : String) (s : DshInjectExecutor γ) : DshInjectExecutor γ :=
  if s.unloading then answer s (.execute (.failed .executorError))
  else select inspects host ⟨.execute,sessionId,4,false⟩ 4 none s

def slotAnswered (call : Call) (g : γ) (outcome : WaitOutcome) (s : DshInjectExecutor γ) : DshInjectExecutor γ :=
  match outcome with
  | .stale => select inspects host call call.remaining none s
  | .timeout => answer s (.execute (.failed .timeout))
  | .failed errorCode => answer s (.execute (.failed errorCode))
  | .agent agent => conclude host (select inspects host call call.remaining) call (some agent) (some g) s

-- The last check before a resume is started.
def resume (call : Call) (g : γ) (s : DshInjectExecutor γ) : DshInjectExecutor γ :=
  if host.generation ≠ some g then select inspects host call call.remaining none s
  else
    let used := usableSlot s host call.sessionId
    match used.2 with
    | some slot => suspend used.1 call (.slot (waitForSlot host slot) slot.generation)
    | none => match host.live call.sessionId with
      | none => answer used.1 (.threw .execute)
      | some (some agent) => conclude host (select inspects host call call.remaining) call (some agent) none used.1
      | some none =>
        let op := used.1.operations.length
        suspend (startResumeSlot used.1 call.sessionId g) call (.slot (waitForSlot host (.resuming op g)) g)

def coldChecked (call : Call) (check : ColdCheck γ) (s : DshInjectExecutor γ) : DshInjectExecutor γ :=
  let used := usableSlot s host call.sessionId
  let again := select inspects host call call.remaining
  match used.2,check with
  | some slot,_ => suspend used.1 call (.slot (waitForSlot host slot) slot.generation)
  | none,.live agent g => conclude host again call (some agent) (some g) used.1
  | none,.failed errorCode =>
    if host.expired then answer used.1 (.execute (.failed errorCode))
    else match host.live call.sessionId with
      | none => answer used.1 (.threw .execute)
      | some (some agent) => conclude host again call (some agent) none used.1
      | some none => answer used.1 (.execute (.failed errorCode))
  | none,.ready g =>
    if host.expired then resume inspects host call g used.1
    else match host.live call.sessionId with
      | none => answer used.1 (.threw .execute)
      | some (some agent) => conclude host again call (some agent) none used.1
      | some none => resume inspects host call g used.1

-- preflight after its slot, if it had one to wait for.
def preflightCold (call : Call) (s : DshInjectExecutor γ) : DshInjectExecutor γ :=
  match host.live call.sessionId with
  | none => answer s (.threw .preflight)
  | some (some _) => answer s (.preflight none)
  | some none => suspend s call (checkCold inspects host s.unloading 3)

def preflight (sessionId : String) (s : DshInjectExecutor γ) : DshInjectExecutor γ :=
  if s.unloading then answer s (.preflight (some .executorError))
  else
    let call : Call := ⟨.preflight,sessionId,0,false⟩
    let used := usableSlot s host sessionId
    match used.2 with
    | some (.retiring t g) => suspend used.1 call (.slot (waitForSlot host (.retiring t g)) g)
    | some _ => answer used.1 (.preflight none)
    | none => preflightCold inspects host call used.1

def preflightAnswered (call : Call) (outcome : WaitOutcome) (s : DshInjectExecutor γ) : DshInjectExecutor γ :=
  match outcome with
  | .timeout => answer s (.preflight (some .executorError))
  | .failed _ => answer s (.preflight (some .executorError))
  | _ => preflightCold inspects host call s

def preflightChecked (call : Call) (check : ColdCheck γ) (s : DshInjectExecutor γ) : DshInjectExecutor γ :=
  let verdict : Answer := match check with
    | .failed .timeout => .preflight (some .executorError)
    | .failed errorCode => .preflight (some errorCode)
    | _ => .preflight none
  match check with
  | .live _ _ => answer s (.preflight none)
  | _ =>
    if host.expired then answer s verdict
    else match host.live call.sessionId with
      | none => answer s (.threw .preflight)
      | some (some _) => answer s (.preflight none)
      | some none => answer s verdict

end Calls

inductive Event (γ : Type) where
  | execute (sessionId : String)
  | preflight (sessionId : String)
  | invalidate (generation : γ)
  | dispose
  | resumed (operation agent : Nat)
  | rejected (operation : Nat) (guarded : Option ErrorCode)
  | reinspected (operation : Nat) (inspected : Inspected)
  | lateDisposed (operation : Nat) (disposed : Bool)
  | retired (settlement : Nat) (disposed : Bool)
  | cleaned (generation : γ)
  | cleared
  | woken (call : Nat)
  | expires (call : Nat)
  | inspected (call : Nat) (inspected : Inspected)
structure Step (γ : Type) where
  event : Event γ
  host : Host γ

def leaveCall (i : Nat) (s : DshInjectExecutor γ) : DshInjectExecutor γ := {s with calls := s.calls.eraseIdx i}
def allSettled (s : DshInjectExecutor γ) (ts : List Nat) : Bool := ts.all fun t => (s.retirements[t]?).any (·.result.isSome)

-- What a wait has come to, if what it awaits has settled.
def waited (host : Host γ) (s : DshInjectExecutor γ) : SlotWait γ → Option WaitOutcome
  | .answered outcome => some outcome
  | .settlement t => (s.retirements[t]?).bind fun r => r.result.map fun result =>
      if result = .failed then .failed .executorError else .stale
  | .operation op g => (s.operations[op]?).bind fun o => match o.stage with
    | .settled .retireFailed => some (.failed .executorError)
    | .settled (.wait outcome) => some (if host.generation ≠ some g then .stale else outcome)
    | _ => none

def proceed (inspects : Bool) (host : Host γ) (call : Call) (g : γ) (outcome : WaitOutcome) (s : DshInjectExecutor γ) :
    DshInjectExecutor γ :=
  match call.method with
  | .execute => slotAnswered inspects host call g outcome s
  | .preflight => preflightAnswered inspects host call outcome s

def woken (inspects : Bool) (host : Host γ) (call : Call) (await : Await γ) (s : DshInjectExecutor γ) : Option (DshInjectExecutor γ) :=
  match await with
  | .slot wait g => (waited host s wait).map fun outcome => proceed inspects host call g outcome s
  | .inspection _ _ => none
  | .checked check => match call.method with
    | .execute => some (coldChecked inspects host call check s)
    | .preflight => some (preflightChecked host call check s)

-- None where the event cannot be: nothing of the kind is under way in that place.
def advance (inspects : Bool) (s : DshInjectExecutor γ) (step : Step γ) : Option (DshInjectExecutor γ) :=
  match step.event with
  | .execute sessionId => some (execute inspects step.host sessionId s)
  | .preflight sessionId => some (preflight inspects step.host sessionId s)
  | .invalidate g => some (invalidateGeneration s g)
  | .dispose => some (disposeSlots s)
  | .resumed op agent => (s.operations[op]?).bind fun o =>
      if o.stage = .pending then some (resumed s step.host op o agent) else none
  | .rejected op guarded => (s.operations[op]?).bind fun o =>
      if o.stage = .pending then some (rejected s inspects step.host op o guarded) else none
  | .reinspected op inspected => (s.operations[op]?).bind fun o =>
      if o.stage = .inspecting then some (reinspected s step.host op o inspected) else none
  | .lateDisposed op disposed => (s.operations[op]?).bind fun o => match o.stage with
    | .disposing outcome => some (settleOperation s op (.settled (if disposed then .wait outcome else .retireFailed)))
    | _ => none
  | .retired t disposed => (s.retirements[t]?).bind fun r =>
      if r.result.isSome then none
      else match r.source with
        | .handle _ => some (retirementSettles s t r (if disposed then .retired else .failed))
        | .operation op => (s.operations[op]?).bind fun o => match o.stage with
          | .settled outcome => some (retirementSettles s t r (if outcome = .retireFailed then .failed else .retired))
          | _ => none
  | .cleaned g => (s.generationInvalidations.get g).bind fun ts =>
      if allSettled s ts then some {s with generationInvalidations := s.generationInvalidations.erase g} else none
  | .cleared => s.disposePromise.bind fun ts =>
      if !s.cleared && allSettled s ts then some {s with slots := Dict.empty,cleared := true} else none
  | .woken i => (s.calls[i]?).bind fun c => woken inspects step.host c.1 c.2 (leaveCall i s)
  | .expires i => (s.calls[i]?).bind fun c => match c.2 with
    | .slot (.answered _) _ => none
    | .slot _ g => some (proceed inspects step.host c.1 g .timeout (leaveCall i s))
    | _ => none
  | .inspected i inspected => (s.calls[i]?).bind fun c => match c.2 with
    | .inspection remaining g =>
      let timeoutCode := if c.1.method = .execute then .timeout else .executorError
      some (suspend (leaveCall i s) c.1 (inspection inspects step.host s.unloading timeoutCode c.1.sessionId remaining g inspected))
    | _ => none

-- The slot of a session is fulfilled and holds this handle.
def Owns (s : DshInjectExecutor γ) (sessionId : String) (h : Nat) : Prop :=
  ∃ agent g, s.slots.get sessionId = some (.fulfilled h agent g)

-- What has to hold in every state an executor reaches.
structure Sound (s : DshInjectExecutor γ) : Prop where
  handles : ∀ (h : Nat) r, s.handles[h]? = some r →
    (r.disposals = 0 ∧ ∃ sessionId, Owns s sessionId h ∧ ∀ other, Owns s other h → other = sessionId) ∨
    (r.disposals = 1 ∧ ∀ sessionId, ¬ Owns s sessionId h)
  operations : ∀ o ∈ s.operations, o.free = true

-- dispose is called while no clean-up of a generation is under way that has a fulfilled slot.
def orderly (s : DshInjectExecutor γ) (step : Step γ) : Bool :=
  match step.event with
  | .dispose => s.slots.entries.all fun e => match e.2 with
    | .fulfilled _ _ g => (s.generationInvalidations.get g).isNone
    | _ => true
  | _ => true

-- What every event keeps.
structure Owned (s : DshInjectExecutor γ) : Prop where
  sole : ∀ sessionId h agent g, s.slots.get sessionId = some (.fulfilled h agent g) →
    ∃ r, s.handles[h]? = some r ∧ r.sessionId = sessionId ∧ r.disposals = 0
  held : ∀ (h : Nat) r, s.handles[h]? = some r → r.disposals = 1 ∨ r.disposals = 0 ∧ Owns s r.sessionId h
  free : ∀ o ∈ s.operations, o.free = true

-- What calls and retirements do to the slots: none of them fulfills one.
structure Moves (s s' : DshInjectExecutor γ) : Prop where
  owned : Owned s → Owned s'
  unloading : s'.unloading = s.unloading
  disposePromise : s'.disposePromise = s.disposePromise
  fewer : ∀ sessionId h agent g, s'.slots.get sessionId = some (.fulfilled h agent g) →
    s.slots.get sessionId = some (.fulfilled h agent g)

variable {s s' : DshInjectExecutor γ} {sessionId : String} {slot : ResumeSlot γ} {g : γ} {host : Host γ} {inspects : Bool}

theorem Moves.trans {t : DshInjectExecutor γ} (first : Moves s s') (second : Moves s' t) : Moves s t :=
  ⟨fun owned => second.owned (first.owned owned),second.unloading.trans first.unloading,
    second.disposePromise.trans first.disposePromise,fun key h agent g found => first.fewer _ _ _ _ (second.fewer key h agent g found)⟩

theorem Owned.same (owned : Owned s) (slots : s'.slots = s.slots) (handles : s'.handles = s.handles)
    (operations : s'.operations = s.operations) : Owned s' := by
  refine ⟨?_,?_,?_⟩
  · rw [slots,handles]; exact owned.sole
  · unfold Owns; rw [slots,handles]; exact owned.held
  · rw [operations]; exact owned.free

theorem Moves.same (slots : s'.slots = s.slots) (handles : s'.handles = s.handles) (operations : s'.operations = s.operations)
    (unloading : s'.unloading = s.unloading) (disposePromise : s'.disposePromise = s.disposePromise) : Moves s s' :=
  ⟨fun owned => owned.same slots handles operations,unloading,disposePromise,fun _ _ _ _ found => by rwa [slots] at found⟩

theorem moves_refl : Moves s s := .same rfl rfl rfl rfl rfl

theorem answer_moves (a : Answer) : Moves s (answer s a) := .same rfl rfl rfl rfl rfl
theorem suspend_moves (call : Call) (await : Await γ) : Moves s (suspend s call await) := .same rfl rfl rfl rfl rfl

def Fulfilled (slot : ResumeSlot γ) : Prop := ∃ h agent g, slot = .fulfilled h agent g

theorem Owned.replace (owned : Owned s) (sessionId : String) {slots : Dict String (ResumeSlot γ)}
    (others : ∀ key, key ≠ sessionId → slots.get key = s.slots.get key)
    (before : ∀ slot, s.slots.get sessionId = some slot → ¬ Fulfilled slot)
    (after : ∀ slot, slots.get sessionId = some slot → ¬ Fulfilled slot) : Owned {s with slots := slots} := by
  refine ⟨fun key h agent g found => ?_,fun h r there => ?_,owned.free⟩
  · by_cases same : key = sessionId
    · subst same
      exact absurd ⟨h,agent,g,rfl⟩ (after _ found)
    · exact owned.sole key h agent g ((others key same).symm.trans found)
  · refine (owned.held h r there).imp_right fun ⟨none',agent,g,found⟩ => ⟨none',agent,g,?_⟩
    by_cases same : r.sessionId = sessionId
    · rw [same] at found
      exact absurd ⟨h,agent,g,rfl⟩ (before _ found)
    · exact (others _ same).trans found

theorem Owned.operations (owned : Owned s) {operations : List (Operation γ)} (free : ∀ o ∈ operations, o.free = true) :
    Owned {s with operations := operations} := ⟨owned.sole,owned.held,free⟩

theorem settleOperation_owned (owned : Owned s) (op : Nat) (stage : Stage) : Owned (settleOperation s op stage) := by
  refine owned.operations fun o inside => ?_
  obtain ⟨i,there⟩ := List.getElem?_of_mem inside
  rw [List.getElem?_modify] at there
  obtain ⟨old,was,same⟩ := Option.map_eq_some_iff.mp there
  have free := owned.free old (List.mem_of_getElem? was)
  split at same <;> subst same <;> exact free

theorem disposed_owned {h agent : Nat} {g' : γ} {source : Source} (owned : Owned s)
    (here : s.slots.get sessionId = some (.fulfilled h agent g')) : Owned (entomb (disposeHandle s h) sessionId g source).1 := by
  obtain ⟨mine,there,named,fresh⟩ := owned.sole _ _ _ _ here
  have only : ∀ key h' agent' g'', s.slots.get key = some (.fulfilled h' agent' g'') → key ≠ sessionId → h ≠ h' := by
    intro key h' agent' g'' found apart same
    subst same
    obtain ⟨r,again,other,_⟩ := owned.sole _ _ _ _ found
    rw [there] at again
    cases Option.some.inj again
    exact apart (other.symm.trans named)
  have kept : ∀ j, h ≠ j → (disposeHandle s h).handles[j]? = s.handles[j]? := by
    intro j apart
    simp [disposeHandle,List.getElem?_modify,if_neg apart]
  refine ⟨fun key h' agent' g'' found => ?_,fun j r found => ?_,owned.free⟩
  · change ((disposeHandle s h).slots.set sessionId _).get key = _ at found
    rw [Dict.get_set] at found
    split at found
    · cases found
    · rename_i apart
      obtain ⟨r,was,other,zero⟩ := owned.sole key h' agent' g'' found
      exact ⟨r,(kept h' (only key h' agent' g'' found apart)).trans was,other,zero⟩
  · by_cases same : h = j
    · subst same
      left
      have found : (disposeHandle s h).handles[h]? = some r := found
      simp only [disposeHandle,List.getElem?_modify,there,if_true] at found
      cases Option.some.inj found
      simp [fresh]
    · have was : s.handles[j]? = some r := (kept j same).symm.trans found
      refine (owned.held j r was).imp_right fun held => ?_
      obtain ⟨zero,agent',g'',owns⟩ := held
      refine ⟨zero,agent',g'',?_⟩
      show ((disposeHandle s h).slots.set sessionId _).get r.sessionId = _
      rw [Dict.get_set,if_neg]
      · exact owns
      · intro equal
        rw [equal,here] at owns
        cases Option.some.inj owns
        exact same rfl

theorem entomb_fewer {source : Source} {key : String} {h agent : Nat} {g' : γ}
    (found : (entomb s sessionId g source).1.slots.get key = some (.fulfilled h agent g')) :
    key ≠ sessionId ∧ s.slots.get key = some (.fulfilled h agent g') := by
  change (s.slots.set sessionId _).get key = _ at found
  rw [Dict.get_set] at found
  split at found
  · cases found
  · exact ⟨by assumption,found⟩

theorem beginRetirement_moves (here : s.slots.get sessionId = some slot) : Moves s (beginRetirement s sessionId slot).1 := by
  unfold beginRetirement
  cases slot with
  | retiring t g =>
    rw [here]
    exact moves_refl
  | resuming op g =>
    rw [here]
    refine ⟨fun owned => ?_,rfl,rfl,fun key h agent g' found => (entomb_fewer found).2⟩
    have owned : Owned {s with slots := s.slots.set sessionId (.retiring s.retirements.length g)} := by
      refine owned.replace sessionId (fun key apart => ?_) ?_ ?_
      · rw [Dict.get_set,if_neg apart]
      · rintro slot found ⟨h,agent,g',rfl⟩
        rw [here] at found
        cases found
      · rintro slot found ⟨h,agent,g',rfl⟩
        rw [Dict.get_set,if_pos rfl] at found
        cases found
    exact owned.same rfl rfl rfl
  | fulfilled h agent g =>
    rw [here]
    exact ⟨fun owned => disposed_owned owned here,rfl,rfl,fun key h' agent' g' found => (entomb_fewer found).2⟩

theorem beginRetirement_get {key : String} (apart : key ≠ sessionId) :
    (beginRetirement s sessionId slot).1.slots.get key = s.slots.get key := by
  unfold beginRetirement
  split
  · rfl
  · rfl
  · show (s.slots.set sessionId _).get key = _
    rw [Dict.get_set,if_neg apart]
  · show (s.slots.set sessionId _).get key = _
    rw [Dict.get_set,if_neg apart]

theorem beginRetirement_away (here : s.slots.get sessionId = some slot) {h agent : Nat} {g' : γ} :
    (beginRetirement s sessionId slot).1.slots.get sessionId ≠ some (.fulfilled h agent g') := by
  intro found
  unfold beginRetirement at found
  cases slot with
  | retiring t g =>
    simp only [here] at found
    cases found
  | resuming op g =>
    simp only [here] at found
    exact (entomb_fewer found).1 rfl
  | fulfilled j agent g =>
    simp only [here] at found
    exact (entomb_fewer found).1 rfl

theorem retireAll_moves (l : List (String × ResumeSlot γ)) (listed : ∀ e ∈ l, s.slots.get e.1 = some e.2)
    (unique : (l.map Prod.fst).Nodup) : Moves s (retireAll l s).1 := by
  induction l generalizing s with
  | nil => exact moves_refl
  | cons e rest ih =>
    obtain ⟨fresh,unique⟩ := List.nodup_cons.mp unique
    have first := beginRetirement_moves (listed e List.mem_cons_self)
    refine first.trans (ih (fun f inside => ?_) unique)
    rw [beginRetirement_get fun same => fresh (List.mem_map.mpr ⟨f,inside,same⟩)]
    exact listed f (List.mem_cons_of_mem _ inside)

theorem retireAll_away (l : List (String × ResumeSlot γ)) (listed : ∀ e ∈ l, s.slots.get e.1 = some e.2)
    (unique : (l.map Prod.fst).Nodup) {e : String × ResumeSlot γ} (inside : e ∈ l) {h agent : Nat} {g' : γ} :
    (retireAll l s).1.slots.get e.1 ≠ some (.fulfilled h agent g') := by
  induction l generalizing s with
  | nil => cases inside
  | cons first rest ih =>
    obtain ⟨fresh,distinct⟩ := List.nodup_cons.mp unique
    have others : ∀ f ∈ rest, (beginRetirement s first.1 first.2).1.slots.get f.1 = some f.2 := by
      intro f there
      rw [beginRetirement_get fun same => fresh (List.mem_map.mpr ⟨f,there,same⟩)]
      exact listed f (List.mem_cons_of_mem _ there)
    rcases List.mem_cons.mp inside with rfl | later
    · intro found
      exact beginRetirement_away (listed _ List.mem_cons_self) ((retireAll_moves rest others distinct).fewer _ _ _ _ found)
    · exact ih others distinct later

theorem startResumeSlot_moves (none' : s.slots.get sessionId = none) (g : γ) : Moves s (startResumeSlot s sessionId g) := by
  refine ⟨fun owned => ?_,rfl,rfl,fun key h agent g' found => ?_⟩
  · have opened : Owned {s with slots := s.slots.set sessionId (.resuming s.operations.length g)} := by
      refine owned.replace sessionId (fun key apart => by rw [Dict.get_set,if_neg apart])
        (fun slot found => ?_) fun slot found => ?_
      · rw [none'] at found
        cases found
      · rw [Dict.get_set,if_pos rfl] at found
        cases found
        rintro ⟨h,agent,g',same⟩
        cases same
    refine opened.operations fun o inside => ?_
    rcases List.mem_append.mp inside with old | new
    · exact owned.free o old
    · cases List.mem_singleton.mp new
      simp [none']
  · change (s.slots.set sessionId _).get key = _ at found
    rw [Dict.get_set] at found
    split at found
    · cases found
    · exact found

theorem owned_listed (g : γ) : (∀ e ∈ s.slots.entries.filter fun e => e.2.generation = g, s.slots.get e.1 = some e.2) ∧
    ((s.slots.entries.filter fun e => e.2.generation = g).map Prod.fst).Nodup :=
  ⟨fun _ inside => (Dict.get_iff _).mpr (List.mem_filter.mp inside).1,s.slots.unique.sublist (List.filter_sublist.map _)⟩

theorem invalidateGeneration_moves (g : γ) : Moves s (invalidateGeneration s g) := by
  unfold invalidateGeneration
  split
  · exact moves_refl
  · obtain ⟨listed,unique⟩ := owned_listed (s := s) g
    exact (retireAll_moves _ listed unique).trans (.same rfl rfl rfl rfl rfl)

theorem invalidateGeneration_away (g : γ) (idle : s.generationInvalidations.get g = none) {h agent : Nat}
    (found : (invalidateGeneration s g).slots.get sessionId = some (.fulfilled h agent g')) : g' ≠ g := by
  rintro rfl
  have before := (invalidateGeneration_moves g').fewer _ _ _ _ found
  obtain ⟨listed,unique⟩ := owned_listed (s := s) g'
  unfold invalidateGeneration at found
  simp only [idle] at found
  have inside : (sessionId,ResumeSlot.fulfilled h agent g') ∈ s.slots.entries.filter fun e => e.2.generation = g' :=
    List.mem_filter.mpr ⟨(Dict.get_iff _).mp before,by simp [ResumeSlot.generation]⟩
  exact retireAll_away _ listed unique inside found

theorem invalidateGeneration_other {g' : γ} (apart : g' ≠ g) :
    (invalidateGeneration s g).generationInvalidations.get g' = s.generationInvalidations.get g' := by
  unfold invalidateGeneration
  split
  · rfl
  · show (s.generationInvalidations.set g _).get g' = _
    rw [Dict.get_set,if_neg apart]

theorem invalidateAll_moves (generations : List γ) : Moves s (invalidateAll generations s) := by
  induction generations generalizing s with
  | nil => exact moves_refl
  | cons g rest ih => exact (invalidateGeneration_moves g).trans ih

-- Every fulfilled slot is retired when no clean-up of its generation was under way.
theorem invalidateAll_away (generations : List γ) (listed : ∀ sessionId h agent g,
      s.slots.get sessionId = some (.fulfilled h agent g) → g ∈ generations ∧ s.generationInvalidations.get g = none)
    (sessionId : String) (h agent : Nat) (g : γ) : (invalidateAll generations s).slots.get sessionId ≠ some (.fulfilled h agent g) := by
  induction generations generalizing s with
  | nil => exact fun found => nomatch (listed _ _ _ _ found).1
  | cons first rest ih =>
    refine ih fun key h agent g found => ?_
    obtain ⟨inside,idle⟩ := listed key h agent g ((invalidateGeneration_moves first).fewer _ _ _ _ found)
    by_cases same : g = first
    · subst same
      exact absurd rfl (invalidateGeneration_away g idle found)
    · exact ⟨(List.mem_cons.mp inside).resolve_left same,(invalidateGeneration_other same).trans idle⟩

theorem usableSlot_moves (host : Host γ) (sessionId : String) : Moves s (usableSlot s host sessionId).1 := by
  unfold usableSlot
  split
  · exact moves_refl
  · exact moves_refl
  · rename_i slot _ found
    split
    · exact invalidateGeneration_moves slot.generation
    split
    · split
      · exact moves_refl
      · exact beginRetirement_moves found
    · exact moves_refl

theorem usableSlot_get (host : Host γ) (sessionId : String) :
    (usableSlot s host sessionId).1.slots.get sessionId = (usableSlot s host sessionId).2 := by
  unfold usableSlot
  split
  · assumption
  · assumption
  · rename_i slot _ found
    split
    · rfl
    split
    · split
      · exact found
      · rfl
    · exact found

theorem deliver_moves (host : Host γ) (agent : Option Nat) : Moves s (deliver host agent s) := by
  unfold deliver
  split <;> exact answer_moves _

theorem conclude_moves {again : Option Nat → DshInjectExecutor γ → DshInjectExecutor γ} (next : ∀ agent s, Moves s (again agent s))
    (call : Call) (agent : Option Nat) (selected : Option γ) : Moves s (conclude host again call agent selected s) := by
  unfold conclude
  split
  · exact answer_moves _
  split
  · exact next agent s
  split
  · exact deliver_moves host _
  · exact next none s

theorem select_moves (call : Call) (remaining : Nat) (last : Option Nat) : Moves s (select inspects host call remaining last s) := by
  induction remaining generalizing s last with
  | zero => exact deliver_moves host last
  | succ remaining ih =>
    have used := usableSlot_moves (s := s) host call.sessionId
    have next : ∀ agent s, Moves s (select inspects host call remaining agent s) := fun agent _ => ih agent
    simp only [select]
    split
    · exact used.trans (conclude_moves next call _ _)
    · exact used.trans (suspend_moves _ _)
    · split
      · exact used.trans (answer_moves _)
      · exact used.trans (conclude_moves next call _ _)
      · exact used.trans (suspend_moves _ _)

theorem execute_moves (sessionId : String) : Moves s (execute inspects host sessionId s) := by
  unfold execute
  split
  · exact answer_moves _
  · exact select_moves _ _ _

theorem slotAnswered_moves (call : Call) (g : γ) (outcome : WaitOutcome) : Moves s (slotAnswered inspects host call g outcome s) := by
  unfold slotAnswered
  split
  · exact select_moves _ _ _
  · exact answer_moves _
  · exact answer_moves _
  · exact conclude_moves (fun _ _ => select_moves _ _ _) call _ _

theorem resume_moves (call : Call) (g : γ) : Moves s (resume inspects host call g s) := by
  have used := usableSlot_moves (s := s) host call.sessionId
  unfold resume
  split
  · exact select_moves _ _ _
  simp only
  split
  · exact used.trans (suspend_moves _ _)
  · rename_i free
    split
    · exact used.trans (answer_moves _)
    · exact used.trans (conclude_moves (fun _ _ => select_moves _ _ _) call _ _)
    · have started := startResumeSlot_moves ((usableSlot_get host call.sessionId).trans free) g
      exact (used.trans started).trans (suspend_moves _ _)

theorem coldChecked_moves (call : Call) (check : ColdCheck γ) : Moves s (coldChecked inspects host call check s) := by
  have used := usableSlot_moves (s := s) host call.sessionId
  have next : ∀ agent s, Moves s (select inspects host call call.remaining agent s) := fun _ _ => select_moves _ _ _
  unfold coldChecked
  simp only
  split
  · exact used.trans (suspend_moves _ _)
  · exact used.trans (conclude_moves next call _ _)
  · split
    · exact used.trans (answer_moves _)
    split
    · exact used.trans (answer_moves _)
    · exact used.trans (conclude_moves next call _ _)
    · exact used.trans (answer_moves _)
  · split
    · exact used.trans (resume_moves call _)
    split
    · exact used.trans (answer_moves _)
    · exact used.trans (conclude_moves next call _ _)
    · exact used.trans (resume_moves call _)

theorem preflightCold_moves (call : Call) : Moves s (preflightCold inspects host call s) := by
  unfold preflightCold
  split
  · exact answer_moves _
  · exact answer_moves _
  · exact suspend_moves _ _

theorem preflight_moves (sessionId : String) : Moves s (preflight inspects host sessionId s) := by
  have used := usableSlot_moves (s := s) host sessionId
  unfold preflight
  split
  · exact answer_moves _
  simp only
  split
  · exact used.trans (suspend_moves _ _)
  · exact used.trans (answer_moves _)
  · exact used.trans (preflightCold_moves _)

theorem preflightChecked_moves (call : Call) (check : ColdCheck γ) : Moves s (preflightChecked host call check s) := by
  unfold preflightChecked
  simp only
  split
  · exact answer_moves _
  split
  · exact answer_moves _
  split <;> exact answer_moves _

theorem proceed_moves (call : Call) (g : γ) (outcome : WaitOutcome) : Moves s (proceed inspects host call g outcome s) := by
  unfold proceed
  split
  · exact slotAnswered_moves call g outcome
  · unfold preflightAnswered
    split
    · exact answer_moves _
    · exact answer_moves _
    · exact preflightCold_moves call

theorem leaveCall_moves (i : Nat) : Moves s (leaveCall i s) := .same rfl rfl rfl rfl rfl

theorem woken_moves (call : Call) (await : Await γ) (stepped : woken inspects host call await s = some s') : Moves s s' := by
  unfold woken at stepped
  split at stepped
  · obtain ⟨outcome,_,rfl⟩ := Option.map_eq_some_iff.mp stepped
    exact proceed_moves call _ outcome
  · cases stepped
  · split at stepped
    · cases Option.some.inj stepped
      exact coldChecked_moves call _
    · cases Option.some.inj stepped
      exact preflightChecked_moves call _

-- Once dispose has been called no slot is fulfilled.
def Quiet (s : DshInjectExecutor γ) : Prop := s.disposePromise.isSome = true →
  s.unloading = true ∧ ∀ sessionId h agent g, s.slots.get sessionId ≠ some (.fulfilled h agent g)

def Steady (s : DshInjectExecutor γ) : Prop := Owned s ∧ Quiet s

theorem Steady.moves (steady : Steady s) (moves : Moves s s') : Steady s' := by
  refine ⟨moves.owned steady.1,fun disposing => ?_⟩
  rw [moves.disposePromise] at disposing
  obtain ⟨unloading,none'⟩ := steady.2 disposing
  exact ⟨moves.unloading.trans unloading,fun key h agent g found => none' key h agent g (moves.fewer key h agent g found)⟩

theorem disposeSlots_steady (host : Host γ) (steady : Steady s) (calm : orderly s ⟨.dispose,host⟩ = true) : Steady (disposeSlots s) := by
  unfold disposeSlots
  split
  · exact steady
  simp only
  have moves := invalidateAll_moves (s := {s with unloading := true}) (s.slots.values.map ResumeSlot.generation).eraseDups
  have owned := moves.owned (steady.1.same rfl rfl rfl)
  refine ⟨owned.same rfl rfl rfl,fun _ => ⟨moves.unloading,?_⟩⟩
  refine invalidateAll_away _ fun key h agent g found => ?_
  have inside := (Dict.get_iff _).mp found
  refine ⟨List.mem_eraseDups.mpr (List.mem_map.mpr ⟨_,List.mem_map_of_mem inside,rfl⟩),?_⟩
  have idle := List.all_eq_true.mp calm _ inside
  simpa using idle

theorem refused_owned (owned : Owned s) (sessionId : String) (agent : Nat) :
    Owned {s with handles := s.handles ++ [⟨sessionId,agent,1⟩]} := by
  refine ⟨fun key h agent' g found => ?_,fun h r found => ?_,owned.free⟩
  · obtain ⟨r,there,named,zero⟩ := owned.sole key h agent' g found
    exact ⟨r,(List.getElem?_append_left (List.getElem?_eq_some_iff.mp there).1).trans there,named,zero⟩
  · rcases Nat.lt_or_ge h s.handles.length with old | new
    · exact owned.held h r ((List.getElem?_append_left old).symm.trans found)
    · rw [List.getElem?_append_right new] at found
      cases List.mem_singleton.mp (List.mem_of_getElem? found)
      exact .inl rfl

theorem taken_owned {op : Nat} (owned : Owned s) (here : s.slots.get sessionId = some (.resuming op g)) (agent : Nat) :
    Owned {s with
      handles := s.handles ++ [⟨sessionId,agent,0⟩]
      slots := s.slots.set sessionId (.fulfilled s.handles.length agent g)} := by
  have get : ∀ key, (s.slots.set sessionId (.fulfilled s.handles.length agent g)).get key =
      if key = sessionId then some (.fulfilled s.handles.length agent g) else s.slots.get key := fun key => Dict.get_set _
  refine ⟨fun key h agent' g' found => ?_,fun h r found => ?_,owned.free⟩
  · rw [get] at found
    split at found
    · rename_i same
      cases Option.some.inj found
      exact ⟨⟨sessionId,agent,0⟩,by simp,same.symm,rfl⟩
    · obtain ⟨r,there,named,zero⟩ := owned.sole key h agent' g' found
      exact ⟨r,(List.getElem?_append_left (List.getElem?_eq_some_iff.mp there).1).trans there,named,zero⟩
  · rcases Nat.lt_or_ge h s.handles.length with old | new
    · refine (owned.held h r ((List.getElem?_append_left old).symm.trans found)).imp_right fun held => ?_
      obtain ⟨zero,agent',g',owns⟩ := held
      refine ⟨zero,agent',g',(get r.sessionId).trans ?_⟩
      rw [if_neg]
      · exact owns
      · intro same
        rw [same,here] at owns
        cases Option.some.inj owns
    · have last : h = s.handles.length := by
        have bound := (List.getElem?_eq_some_iff.mp found).1
        simp only [List.length_append,List.length_singleton] at bound
        omega
      rw [List.getElem?_append_right new] at found
      cases List.mem_singleton.mp (List.mem_of_getElem? found)
      exact .inr ⟨rfl,agent,g,(get sessionId).trans (by rw [if_pos rfl,last])⟩

theorem settleOperation_steady (steady : Steady s) (op : Nat) (stage : Stage) : Steady (settleOperation s op stage) :=
  ⟨settleOperation_owned steady.1 op stage,steady.2⟩

theorem resumed_steady {op : Nat} {o : Operation γ} (steady : Steady s) (agent : Nat) : Steady (resumed s host op o agent) := by
  unfold resumed
  split
  · exact settleOperation_steady ⟨refused_owned steady.1 _ _,steady.2⟩ op _
  rename_i running
  split
  · exact settleOperation_steady ⟨refused_owned steady.1 _ _,steady.2⟩ op _
  · rename_i wanted
    have here := not_not.mp (not_or.mp wanted).2
    refine settleOperation_steady ⟨taken_owned steady.1 here agent,fun disposing => ?_⟩ op _
    exact absurd (steady.2 disposing).1 running

theorem erased_steady (steady : Steady s) (before : ∀ slot, s.slots.get sessionId = some slot → ¬ Fulfilled slot) :
    Steady {s with slots := s.slots.erase sessionId} := by
  refine ⟨steady.1.replace sessionId (fun key apart => by rw [Dict.get_erase,if_neg apart]) before fun slot found => ?_,
    fun disposing => ?_⟩
  · rw [Dict.get_erase,if_pos rfl] at found
    cases found
  · obtain ⟨unloading,none'⟩ := steady.2 disposing
    refine ⟨unloading,fun key h agent g found => none' key h agent g ?_⟩
    change (s.slots.erase sessionId).get key = _ at found
    rw [Dict.get_erase] at found
    split at found
    · cases found
    · exact found

theorem rejected_steady {op : Nat} {o : Operation γ} (steady : Steady s) (guarded : Option ErrorCode) :
    Steady (rejected s inspects host op o guarded) := by
  unfold rejected
  apply settleOperation_steady
  split
  · rename_i here
    refine erased_steady steady fun slot found => ?_
    rw [here] at found
    cases found
    rintro ⟨h,agent,g,same⟩
    cases same
  · exact steady

theorem retirementSettles_steady {t : Nat} {r : Retirement} (steady : Steady s) (result : RetirementResult) :
    Steady (retirementSettles s t r result) := by
  have marked : Steady {s with retirements := s.retirements.set t {r with result := some result}} :=
    ⟨steady.1.same rfl rfl rfl,steady.2⟩
  unfold retirementSettles
  simp only
  split
  · rename_i here
    split
    · refine erased_steady marked fun slot found => ?_
      rw [here] at found
      cases found
      rintro ⟨h,agent,g,same⟩
      cases same
    · exact marked
  · exact marked

theorem cleared_steady (steady : Steady s) (disposing : s.disposePromise.isSome = true) :
    Steady {s with slots := Dict.empty,cleared := true} := by
  obtain ⟨unloading,none'⟩ := steady.2 disposing
  refine ⟨⟨fun key h agent g found => ?_,fun h r found => ?_,steady.1.free⟩,fun _ => ⟨unloading,fun key h agent g found => ?_⟩⟩
  · exact nomatch (show (none : Option (ResumeSlot γ)) = _ from found)
  · rcases steady.1.held h r found with one | ⟨_,agent,g,owns⟩
    · exact .inl one
    · exact absurd owns (none' _ _ _ _)
  · exact nomatch (show (none : Option (ResumeSlot γ)) = _ from found)

theorem advance_steady (step : Step γ) (steady : Steady s) (calm : orderly s step = true) (stepped : advance inspects s step = some s') :
    Steady s' := by
  obtain ⟨event,host⟩ := step
  cases event with
  | execute sessionId =>
    cases Option.some.inj stepped
    exact steady.moves (execute_moves sessionId)
  | preflight sessionId =>
    cases Option.some.inj stepped
    exact steady.moves (preflight_moves sessionId)
  | invalidate g =>
    cases Option.some.inj stepped
    exact steady.moves (invalidateGeneration_moves g)
  | dispose =>
    cases Option.some.inj stepped
    exact disposeSlots_steady host steady calm
  | resumed op agent =>
    obtain ⟨o,_,there⟩ := Option.bind_eq_some_iff.mp stepped
    split at there
    · cases Option.some.inj there
      exact resumed_steady steady agent
    · cases there
  | rejected op guarded =>
    obtain ⟨o,_,there⟩ := Option.bind_eq_some_iff.mp stepped
    split at there
    · cases Option.some.inj there
      exact rejected_steady steady guarded
    · cases there
  | reinspected op inspected =>
    obtain ⟨o,_,there⟩ := Option.bind_eq_some_iff.mp stepped
    split at there
    · cases Option.some.inj there
      exact settleOperation_steady steady op _
    · cases there
  | lateDisposed op disposed =>
    obtain ⟨o,_,there⟩ := Option.bind_eq_some_iff.mp stepped
    split at there
    · cases Option.some.inj there
      exact settleOperation_steady steady op _
    · cases there
  | retired t disposed =>
    obtain ⟨r,_,there⟩ := Option.bind_eq_some_iff.mp stepped
    split at there
    · cases there
    split at there
    · cases Option.some.inj there
      exact retirementSettles_steady steady _
    · obtain ⟨o,_,there⟩ := Option.bind_eq_some_iff.mp there
      split at there
      · cases Option.some.inj there
        exact retirementSettles_steady steady _
      · cases there
  | cleaned g =>
    obtain ⟨ts,_,there⟩ := Option.bind_eq_some_iff.mp stepped
    split at there
    · cases Option.some.inj there
      exact steady.moves (.same rfl rfl rfl rfl rfl)
    · cases there
  | cleared =>
    obtain ⟨ts,disposing,there⟩ := Option.bind_eq_some_iff.mp stepped
    split at there
    · cases Option.some.inj there
      exact cleared_steady steady (by rw [disposing]; rfl)
    · cases there
  | woken i =>
    obtain ⟨c,_,there⟩ := Option.bind_eq_some_iff.mp stepped
    exact steady.moves ((leaveCall_moves i).trans (woken_moves c.1 c.2 there))
  | expires i =>
    obtain ⟨c,_,there⟩ := Option.bind_eq_some_iff.mp stepped
    split at there
    · cases there
    · cases Option.some.inj there
      exact steady.moves ((leaveCall_moves i).trans (proceed_moves c.1 _ .timeout))
    · cases there
  | inspected i inspected =>
    obtain ⟨c,_,there⟩ := Option.bind_eq_some_iff.mp stepped
    split at there
    · cases Option.some.inj there
      exact steady.moves ((leaveCall_moves i).trans (suspend_moves _ _))
    · cases there

theorem initial_steady : Steady ({} : DshInjectExecutor γ) := by
  refine ⟨⟨fun _ _ _ _ found => (nomatch found),fun _ _ found => ?_,fun _ inside => (nomatch inside)⟩,fun disposing => (nomatch disposing)⟩
  simp at found

theorem steady_sound (steady : Steady s) : Sound s := by
  refine ⟨fun h r found => ?_,steady.1.free⟩
  have named : ∀ sessionId, DshInject.Owns s sessionId h → r.sessionId = sessionId ∧ r.disposals = 0 := by
    rintro sessionId ⟨agent,g,here⟩
    obtain ⟨same,there,name,zero⟩ := steady.1.sole sessionId h agent g here
    rw [found] at there
    cases Option.some.inj there
    exact ⟨name,zero⟩
  rcases steady.1.held h r found with one | ⟨zero,owns⟩
  · refine .inr ⟨one,fun sessionId owns => ?_⟩
    rw [(named sessionId owns).2] at one
    cases one
  · exact .inl ⟨zero,r.sessionId,owns,fun other also => (named other also).1.symm⟩

theorem undisturbed_run_owns (path : Run (advance inspects) (fun s step => orderly s step = true) ({} : DshInjectExecutor γ) steps s) :
    Sound s :=
  steady_sound (path.invariant Steady initial_steady fun _ step _ steady calm stepped => advance_steady step steady calm stepped)

-- The agents are mounted, and no session is live.
def mounted : Host Nat := ⟨some 0,true,fun _ => some none,true,false,false⟩
def unmounted : Host Nat := {mounted with generation := none,available := false}
-- A message to a cold session, delivered once its resume has come back with an agent.
def delivers (sessionId : String) (operation call agent : Nat) : List (Step Nat) :=
  [⟨.execute sessionId,mounted⟩,⟨.inspected call (.value .absent),mounted⟩,⟨.woken call,mounted⟩,
    ⟨.resumed operation agent,mounted⟩,⟨.woken call,mounted⟩]

def demoRun : List (Step Nat) := delivers "a" 0 0 5 ++ delivers "b" 1 0 6 ++
  [⟨.invalidate 0,mounted⟩,⟨.retired 0 true,mounted⟩,⟨.retired 1 true,mounted⟩,⟨.cleaned 0,mounted⟩,⟨.dispose,mounted⟩,
    ⟨.cleared,mounted⟩]

theorem demo_run_owns : ∃ s : DshInjectExecutor Nat, Run (advance true) (fun s step => orderly s step = true) {} demoRun s ∧
    s.handles = [⟨"a",5,1⟩,⟨"b",6,1⟩] ∧ s.answers = [.execute .delivered,.execute .delivered] ∧ Sound s := by
  have shown : ((follow (advance true) (fun s step => orderly s step = true) {} demoRun).map fun s => (s.handles,s.answers)) =
      some ([⟨"a",5,1⟩,⟨"b",6,1⟩],[.execute .delivered,.execute .delivered]) := by decide +kernel
  obtain ⟨s,path,fields⟩ := Option.map_eq_some_iff.mp shown
  obtain ⟨handles,answers⟩ := Prod.mk.inj fields
  exact ⟨s,follow_exact.mp path,handles,answers,undisturbed_run_owns (follow_exact.mp path)⟩

-- While the first session's clean-up is under way the generation is back and fulfills a second
-- slot; dispose takes the clean-up under way for its own and then drops that slot.
def droppedRun : List (Step Nat) := delivers "a" 0 0 5 ++ [⟨.preflight "a",unmounted⟩] ++ delivers "b" 1 1 6 ++
  [⟨.dispose,mounted⟩,⟨.retired 0 true,mounted⟩,⟨.cleared,mounted⟩]

theorem dispose_during_cleanup_drops : ∃ s : DshInjectExecutor Nat, Run (advance true) Any {} droppedRun s ∧
    s.handles = [⟨"a",5,1⟩,⟨"b",6,0⟩] ∧ s.slots.entries = [] ∧ ¬ Sound s := by
  have shown : ((follow (advance true) Any {} droppedRun).map fun s => (s.handles,s.slots.entries)) =
      some ([⟨"a",5,1⟩,⟨"b",6,0⟩],[]) := by decide +kernel
  obtain ⟨s,path,fields⟩ := Option.map_eq_some_iff.mp shown
  obtain ⟨handles,slots⟩ := Prod.mk.inj fields
  refine ⟨s,follow_exact.mp path,handles,slots,fun sound => ?_⟩
  rcases sound.handles 1 ⟨"b",6,0⟩ (by simp [handles]) with ⟨_,sessionId,⟨agent,g,here⟩,_⟩ | ⟨one,_⟩
  · simp [Dict.get,slots] at here
  · cases one

end AgentSideCar.DshInject
