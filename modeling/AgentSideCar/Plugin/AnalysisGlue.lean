import AgentSideCar.Library.Runs
import Mathlib.Data.List.Basic

namespace AgentSideCar.AnalysisGlue
open Runs

inductive AnalysisPhase where | idle | requesting | ready | answering | stopped | failed
  deriving DecidableEq
inductive AnalysisOutcome where | completed | failed | cancelled | timeout
  deriving DecidableEq

def AnalysisOutcome.text : AnalysisOutcome → String
  | .completed => "completed"
  | .failed => "failed"
  | .cancelled => "cancelled"
  | .timeout => "timeout"

structure AnalysisResult where
  outcome : AnalysisOutcome
  analysisSessionId : Option String := none
  summary : Option String := none
  truncated : Bool := false
  tokensHint : Option Nat := none
  errorCode : Option String := none
  timeoutStage : Option String := none
  disclaimer : String := ""
  deriving DecidableEq

structure AnalysisExchange where
  question : Option String
  summary : String
  truncated : Bool
  tokensHint : Option Nat
  deriving DecidableEq

inductive Role where | user | assistant
  deriving DecidableEq
structure AnalysisMessage where
  role : Role
  content : String
  pending : Bool := false
  truncated : Bool := false
  deriving DecidableEq

structure AnalysisGlueState where
  phase : AnalysisPhase := .idle
  analysisSessionId : Option String := none
  exchanges : List AnalysisExchange := []
  messages : List AnalysisMessage := []
  disclaimer : Option String := none
  errorCode : Option String := none
  timeoutStage : Option String := none
  noticeCode : Option String := none
  progressStep : Nat := 0
  deriving DecidableEq

def retryableFollowupCodes : List String := ["timeout","request_timeout","network_error"]

-- The reason of an ApiError; anything else that was thrown, a malformed answer too, has none.
def failureCode (reason : Option String) : String :=
  match reason with
  | none => "network_error"
  | some reason => if reason = "unknown_action" then "analysis_unavailable" else reason

-- The question of an action that awaits its answer, trimmed; a follow-up's session; and the
-- conversation that posted it.
inductive Ask where
  | request
  | followup (analysisSessionId question : String)
  deriving DecidableEq
structure InFlight where
  conversation : Nat
  ask : Ask
  deriving DecidableEq

-- The store's fields, then the world: the conversation (how many starts were taken), the
-- intervals that still fire, the actions and the stops that await, every session whose cancel was
-- posted, every session a completed answer named, and which answer went into which conversation.
structure AnalysisStore where
  state : AnalysisGlueState := {}
  disposed : Bool := false
  progressTimer : Option Nat := none
  conversation : Nat := 0
  timers : List Nat := []
  nextTimer : Nat := 0
  inFlight : List InFlight := []
  stopping : List String := []
  cancelled : List String := []
  returned : List String := []
  folded : List (Nat × Nat) := []

def setState (patch : AnalysisGlueState → AnalysisGlueState) (s : AnalysisStore) : AnalysisStore :=
  if s.disposed then s else {s with state := patch s.state}

def beginProgress (s : AnalysisStore) : AnalysisStore :=
  {s with progressTimer := some s.nextTimer,timers := s.nextTimer :: s.timers,nextTimer := s.nextTimer + 1}

def endProgress (s : AnalysisStore) : AnalysisStore :=
  setState (fun state => {state with progressStep := 0})
    {s with timers := s.timers.filter fun t => some t ≠ s.progressTimer,progressTimer := none}

def postCancel (analysisSessionId : String) (s : AnalysisStore) : AnalysisStore :=
  {s with cancelled := analysisSessionId :: s.cancelled}

def withoutPendingMessages (state : AnalysisGlueState) : List AnalysisMessage := state.messages.filter (!·.pending)
def settledMessages (summary : String) (truncated : Bool) (state : AnalysisGlueState) : List AnalysisMessage :=
  withoutPendingMessages state ++ [{role := .assistant,content := summary,truncated := truncated}]

def pendingMessages (question : String) : List AnalysisMessage :=
  (if question = "" then [] else [{role := .user,content := question}]) ++
    [{role := .assistant,content := "",pending := true}]

def start (question : String) (s : AnalysisStore) : AnalysisStore :=
  if s.disposed || s.state.phase = .requesting || s.state.phase = .ready || s.state.phase = .answering then s
  else beginProgress {setState (fun _ => {phase := .requesting,messages := pendingMessages question}) s with
    conversation := s.conversation + 1
    inFlight := s.inFlight ++ [⟨s.conversation + 1,.request⟩]}

def followup (question : String) (s : AnalysisStore) : AnalysisStore :=
  match s.state.analysisSessionId with
  | none => s
  | some id =>
    if s.disposed || s.state.phase ≠ .ready || question = "" then s
    else beginProgress {setState (fun state => {state with
      phase := .answering,noticeCode := none
      messages := withoutPendingMessages state ++ pendingMessages question}) s with
      inFlight := s.inFlight ++ [⟨s.conversation,.followup id question⟩]}

def stopped (state : AnalysisGlueState) : AnalysisGlueState :=
  {state with phase := .stopped,noticeCode := none,messages := withoutPendingMessages state}

def cancellable (phase : AnalysisPhase) : Bool := phase = .ready || phase = .answering

def stop (s : AnalysisStore) : AnalysisStore :=
  if s.disposed then s
  else if s.state.phase = .requesting then endProgress (setState stopped s)
  else match s.state.analysisSessionId with
    | none => s
    | some id => if !cancellable s.state.phase then s else postCancel id {s with stopping := s.stopping ++ [id]}

-- What follows a stop's await.
def stopSettled (done : Bool) (s : AnalysisStore) : AnalysisStore :=
  if s.disposed then s
  else if done then setState stopped s
  else setState (fun state => {state with noticeCode := some "cancel_failed"}) s

def nonempty (id : Option String) : Option String := id.filter (· ≠ "")

def adopted (question : Option String) (result : AnalysisResult) (state : AnalysisGlueState) : AnalysisGlueState :=
  match result.outcome with
  | .timeout =>
    let summary := result.summary.getD ""
    let state := {state with
      timeoutStage := result.timeoutStage,disclaimer := some result.disclaimer,progressStep := 0
      messages := if summary = "" then withoutPendingMessages state else settledMessages summary false state}
    match nonempty result.analysisSessionId with
    | some id => {state with phase := .ready,analysisSessionId := some id,noticeCode := some "timeout"}
    | none => {state with phase := .failed,errorCode := some "timeout"}
  | .completed => {state with
      phase := .ready
      analysisSessionId := result.analysisSessionId <|> state.analysisSessionId
      exchanges := state.exchanges ++ [⟨question,result.summary.getD "",result.truncated,result.tokensHint⟩]
      messages := settledMessages (result.summary.getD "") result.truncated state
      disclaimer := some result.disclaimer,errorCode := none,noticeCode := none,progressStep := 0}
  | outcome => {state with
      phase := if result.errorCode = some "cancelled" ∨ outcome = .cancelled then .stopped else .failed
      errorCode := some (result.errorCode.getD outcome.text)
      disclaimer := some result.disclaimer,messages := withoutPendingMessages state,progressStep := 0}

def requestFailed (reason : Option String) (state : AnalysisGlueState) : AnalysisGlueState :=
  {state with
    phase := .failed,errorCode := some (failureCode reason),timeoutStage := none
    messages := withoutPendingMessages state}

def followupFailed (reason : Option String) (state : AnalysisGlueState) : AnalysisGlueState :=
  if failureCode reason ∈ retryableFollowupCodes then
    {state with phase := .ready,noticeCode := some (failureCode reason),messages := withoutPendingMessages state}
  else {state with phase := .failed,errorCode := some (failureCode reason),messages := withoutPendingMessages state}

-- The session that a completed answer names.
def completedId (result : AnalysisResult) : Option String :=
  if result.outcome = .completed then nonempty result.analysisSessionId else none

def fold (r : InFlight) (patch : AnalysisGlueState → AnalysisGlueState) (s : AnalysisStore) : AnalysisStore :=
  setState patch {s with folded := (r.conversation,s.conversation) :: s.folded}

def awaitedPhase : Ask → AnalysisPhase
  | .request => .requesting
  | .followup _ _ => .answering

-- What an answer makes of the conversation that awaits it.
def outcomeOf (ask : Ask) (answer : Except (Option String) AnalysisResult) : AnalysisGlueState → AnalysisGlueState :=
  match ask,answer with
  | .request,.ok result => adopted none result
  | .request,.error reason => requestFailed reason
  | .followup _ question,.ok result => adopted (some question) result
  | .followup _ _,.error reason => followupFailed reason

-- The session of a request that nobody awaits any more is released.
def dropped (ask : Ask) (answer : Except (Option String) AnalysisResult) (s : AnalysisStore) : AnalysisStore :=
  match ask,answer with
  | .request,.ok result => (completedId result).elim s (postCancel · s)
  | _,_ => s

-- What follows the await of start() or followup(), up to the finally.
def answered (r : InFlight) (answer : Except (Option String) AnalysisResult) (s : AnalysisStore) : AnalysisStore :=
  if s.disposed || s.state.phase ≠ awaitedPhase r.ask then dropped r.ask answer s
  else fold r (outcomeOf r.ask answer) s

def named (answer : Except (Option String) AnalysisResult) : List String :=
  match answer with
  | .ok result => (completedId result).toList
  | .error _ => []

def settled (slot : Nat) (r : InFlight) (answer : Except (Option String) AnalysisResult) (s : AnalysisStore) :
    AnalysisStore :=
  endProgress (answered r answer {s with inFlight := s.inFlight.eraseIdx slot,returned := named answer ++ s.returned})

def dispose (s : AnalysisStore) : AnalysisStore :=
  if s.disposed then s
  else
    let gone := endProgress {s with disposed := true}
    match s.state.analysisSessionId with
    | none => gone
    | some id => if cancellable s.state.phase then postCancel id gone else gone

def tick (s : AnalysisStore) : AnalysisStore :=
  if s.disposed then s else setState (fun state => {state with progressStep := state.progressStep + 1}) s

-- Questions come trimmed.
inductive Event where
  | start (question : String)
  | followup (question : String)
  | stop
  | dispose
  | settled (slot : Nat) (answer : Except (Option String) AnalysisResult)
  | stopSettled (slot : Nat) (done : Bool)
  | tick (timer : Nat)

def advance (s : AnalysisStore) : Event → Option AnalysisStore
  | .start question => some (start question s)
  | .followup question => some (followup question s)
  | .stop => some (stop s)
  | .dispose => some (dispose s)
  | .settled slot answer => (s.inFlight[slot]?).map fun r => settled slot r answer s
  | .stopSettled slot done => if slot < s.stopping.length then
      some (stopSettled done {s with stopping := s.stopping.eraseIdx slot}) else none
  | .tick timer => if timer ∈ s.timers then some (tick s) else none

-- A session that stop() and dispose() would cancel, or whose cancel has been posted.
def Owned (s : AnalysisStore) (id : String) : Prop :=
  (s.disposed = false ∧ cancellable s.state.phase = true ∧ s.state.analysisSessionId = some id) ∨ id ∈ s.cancelled

structure Sound (s : AnalysisStore) : Prop where
  own : ∀ from' into, (from',into) ∈ s.folded → from' = into
  owned : ∀ id ∈ s.returned, Owned s id
  quiet : s.inFlight = [] → s.timers = []

-- A follow-up's answer that leaves its session ready for the next.
def remains (result : AnalysisResult) : Bool :=
  decide (result.outcome = .completed) || decide (result.outcome = .timeout) && (nonempty result.analysisSessionId).isSome

def stays (answer : Except (Option String) AnalysisResult) : Bool :=
  match answer with
  | .ok result => remains result
  | .error reason => failureCode reason ∈ retryableFollowupCodes

-- An answer names the session it was asked about, or none.
def echoes (id : String) (answer : Except (Option String) AnalysisResult) : Bool :=
  match answer with
  | .ok result => result.analysisSessionId.all (· = id)
  | .error _ => true

def takesStart (s : AnalysisStore) : Bool :=
  !(s.disposed || s.state.phase = .requesting || s.state.phase = .ready || s.state.phase = .answering)

-- A conversation is started only when no action and no stop of an earlier one awaits its answer,
-- and a follow-up on a session whose cancel has not been posted leaves that session ready.
def orderly (s : AnalysisStore) : Event → Bool
  | .start _ => !takesStart s || s.inFlight.isEmpty && s.stopping.isEmpty
  | .settled slot answer => (s.inFlight[slot]?).all fun r =>
      match r.ask with
      | .request => true
      | .followup id _ => echoes id answer && (s.disposed || stays answer || decide (id ∈ s.cancelled))
  | _ => true

-- A session that is current and in a phase after its request.
def Current (s : AnalysisStore) (id : String) : Prop := s.state.phase ≠ .requesting ∧ s.state.analysisSessionId = some id

-- What every step keeps of the sessions, the answers and the stops awaited.
structure Kept (s : AnalysisStore) : Prop where
  own : ∀ from' into, (from',into) ∈ s.folded → from' = into
  owned : ∀ id ∈ s.returned, Owned s id
  mine : ∀ r ∈ s.inFlight, r.conversation = s.conversation
  asked : ∀ r ∈ s.inFlight, ∀ id question, r.ask = .followup id question → Owned s id ∧ Current s id
  stops : ∀ id ∈ s.stopping, id ∈ s.cancelled ∧ Current s id

-- And of the progress timer: none fires but the one held, which only an action awaited holds.
structure Timed (s : AnalysisStore) : Prop where
  single : s.timers = s.progressTimer.toList
  held : s.progressTimer.isSome = true → s.inFlight ≠ []
  ready : s.state.phase = .ready → s.progressTimer = none

def core (s : AnalysisStore) :
    (Bool × AnalysisPhase × Option String) × Nat × (List InFlight × List String) × List String × List String × List (Nat × Nat) :=
  ((s.disposed,s.state.phase,s.state.analysisSessionId),s.conversation,(s.inFlight,s.stopping),s.cancelled,s.returned,s.folded)

variable {s s' after : AnalysisStore} {id question : String} {r : InFlight} {slot : Nat}
  {answer : Except (Option String) AnalysisResult} {patch : AnalysisGlueState → AnalysisGlueState}

theorem Kept.of_core (kept : Kept s) (same : core s' = core s) : Kept s' := by
  simp only [core,Prod.mk.injEq] at same
  obtain ⟨⟨disposed,phase,current⟩,conversation,⟨inFlight,stopping⟩,cancelled,returned,folded⟩ := same
  obtain ⟨own,owned,mine,asked,stops⟩ := kept
  unfold Owned at owned
  unfold Owned Current at asked
  unfold Current at stops
  constructor
  · rwa [folded]
  · unfold Owned
    rwa [returned,disposed,phase,current,cancelled]
  · rwa [inFlight,conversation]
  · unfold Owned Current
    rwa [inFlight,disposed,phase,current,cancelled]
  · unfold Current
    rwa [stopping,cancelled,phase,current]

-- When no step out of a phase that is cancelled can leave the current session behind.
def Free (s : AnalysisStore) : Prop :=
  s.disposed = true ∨ cancellable s.state.phase = false ∨ ∀ id, s.state.analysisSessionId = some id → id ∈ s.cancelled

theorem Owned.posted (owned : Owned s id) (free : Free s) : id ∈ s.cancelled := by
  rcases owned with ⟨alive,live,current⟩ | posted
  · rcases free with gone | dead | told
    · rw [gone] at alive
      cases alive
    · rw [dead] at live
      cases live
    · exact told id current
  · exact posted

theorem setState_alive (alive : s.disposed = false) : setState patch s = {s with state := patch s.state} := by
  simp [setState,alive]

theorem endProgress_core (s : AnalysisStore) : core (endProgress s) = core s := by
  unfold endProgress setState
  split <;> rfl

theorem endProgress_timed (single : s.timers = s.progressTimer.toList) : Timed (endProgress s) := by
  have silent : s.timers.filter (fun t => some t ≠ s.progressTimer) = [] := by
    rw [single]
    cases s.progressTimer <;> simp
  have stopped' : (endProgress s).timers = [] ∧ (endProgress s).progressTimer = none := by
    unfold endProgress setState
    rw [silent]
    split <;> exact ⟨rfl,rfl⟩
  obtain ⟨timers,timer⟩ := stopped'
  exact ⟨by rw [timers,timer]; rfl,fun some' => absurd some' (by simp [timer]),fun _ => timer⟩

theorem start_alone (calm : orderly s (.start question) = true)
    (free : ¬ (s.disposed || s.state.phase = .requesting || s.state.phase = .ready || s.state.phase = .answering) = true) :
    s.inFlight = [] ∧ s.stopping = [] := by
  have taken : takesStart s = true := by simpa only [takesStart,Bool.not_eq_true'] using Bool.eq_false_iff.mpr free
  simpa [orderly,taken] using calm

theorem start_kept (kept : Kept s) (calm : orderly s (.start question) = true) : Kept (start question s) := by
  unfold start
  split
  · exact kept
  · rename_i free
    obtain ⟨none',unstopped⟩ := start_alone calm free
    simp only [Bool.or_eq_true,decide_eq_true_eq,not_or,Bool.not_eq_true] at free
    obtain ⟨⟨⟨alive,requesting⟩,ready⟩,answering⟩ := free
    have dead : cancellable s.state.phase = false := by simp [cancellable,ready,answering]
    rw [setState_alive alive,none']
    unfold beginProgress
    refine ⟨kept.own,fun id inside => .inr ((kept.owned id inside).posted (.inr (.inl dead))),?_,?_,?_⟩
    · intro r inside
      cases List.mem_singleton.mp inside
      rfl
    · intro r inside id question ask
      cases List.mem_singleton.mp inside
      cases ask
    · intro id inside
      rw [show s.stopping = [] from unstopped] at inside
      cases inside

theorem start_timed (timed : Timed s) (calm : orderly s (.start question) = true) : Timed (start question s) := by
  unfold start
  split
  · exact timed
  · rename_i free
    obtain ⟨alone,_⟩ := start_alone calm free
    simp only [Bool.or_eq_true,decide_eq_true_eq,not_or,Bool.not_eq_true] at free
    obtain ⟨⟨⟨alive,_⟩,_⟩,_⟩ := free
    have none' : s.progressTimer = none := Option.not_isSome_iff_eq_none.mp fun some' => timed.held some' alone
    have single := timed.single
    rw [none'] at single
    rw [setState_alive alive]
    unfold beginProgress
    exact ⟨by simp [single],fun _ => by simp,nofun⟩

theorem followup_kept (kept : Kept s) : Kept (followup question s) := by
  unfold followup
  split
  · exact kept
  · rename_i id current
    split
    · exact kept
    · rename_i free
      simp only [Bool.or_eq_true,decide_eq_true_eq,not_or,Bool.not_eq_true,ne_eq,Classical.not_not] at free
      obtain ⟨⟨alive,ready⟩,_⟩ := free
      have owns : ∀ id, Owned s id → s.state.analysisSessionId = some id ∨ id ∈ s.cancelled := fun id owned =>
        owned.imp (fun mine => mine.2.2) fun posted => posted
      rw [setState_alive alive]
      unfold beginProgress
      refine ⟨kept.own,fun id inside => (owns id (kept.owned id inside)).imp (fun mine => ⟨alive,rfl,mine⟩) fun posted => posted,?_,?_,
        fun id inside => ⟨(kept.stops id inside).1,nofun,(kept.stops id inside).2.2⟩⟩
      · intro r inside
        rcases List.mem_append.mp inside with old | new
        · exact kept.mine r old
        · cases List.mem_singleton.mp new
          rfl
      · intro r inside id' question' ask
        rcases List.mem_append.mp inside with old | new
        · obtain ⟨owned,_,here⟩ := kept.asked r old id' question' ask
          exact ⟨(owns id' owned).imp (fun mine => ⟨alive,rfl,mine⟩) fun posted => posted,nofun,here⟩
        · rw [List.mem_singleton.mp new] at ask
          cases ask
          exact ⟨.inl ⟨alive,rfl,current⟩,nofun,current⟩

theorem followup_timed (timed : Timed s) : Timed (followup question s) := by
  unfold followup
  split
  · exact timed
  · split
    · exact timed
    · rename_i free
      simp only [Bool.or_eq_true,decide_eq_true_eq,not_or,Bool.not_eq_true,ne_eq,Classical.not_not] at free
      obtain ⟨⟨alive,ready⟩,_⟩ := free
      have single := timed.single
      rw [timed.ready ready] at single
      rw [setState_alive alive]
      unfold beginProgress
      exact ⟨by simp [single],fun _ => by simp,nofun⟩

theorem Kept.leaves (kept : Kept s) (free : Free s) (conversation : s'.conversation = s.conversation)
    (inFlight : s'.inFlight = s.inFlight) (stopping : s'.stopping ⊆ s.stopping) (cancelled : s'.cancelled = s.cancelled)
    (returned : s'.returned = s.returned) (folded : s'.folded = s.folded)
    (current : s'.state.analysisSessionId = s.state.analysisSessionId) (phase : s'.state.phase ≠ .requesting) : Kept s' where
  own := folded ▸ kept.own
  owned id inside := .inr (cancelled ▸ (kept.owned id (returned ▸ inside)).posted free)
  mine r inside := conversation ▸ kept.mine r (inFlight ▸ inside)
  asked r inside id question ask := by
    obtain ⟨owned,_,here⟩ := kept.asked r (inFlight ▸ inside) id question ask
    exact ⟨.inr (cancelled ▸ owned.posted free),phase,current.trans here⟩
  stops id inside := by
    obtain ⟨posted,_,here⟩ := kept.stops id (stopping inside)
    exact ⟨cancelled ▸ posted,phase,current.trans here⟩

theorem Kept.posts (kept : Kept s) (id : String) : Kept (postCancel id s) where
  own := kept.own
  owned id' inside := (kept.owned id' inside).imp (fun mine => mine) (List.mem_cons_of_mem _)
  mine := kept.mine
  asked r inside id' question ask :=
    (kept.asked r inside id' question ask).imp (Or.imp (fun mine => mine) (List.mem_cons_of_mem _)) fun here => here
  stops id' inside := (kept.stops id' inside).imp (List.mem_cons_of_mem _) fun here => here

theorem stop_kept (kept : Kept s) : Kept (stop s) := by
  unfold stop
  split
  · exact kept
  · rename_i alive
    have alive : s.disposed = false := by simpa using alive
    split
    · rename_i requesting
      refine Kept.of_core (s := setState stopped s) ?_ (endProgress_core _)
      rw [setState_alive alive]
      exact kept.leaves (.inr (.inl (by rw [requesting]; rfl))) rfl rfl (List.Subset.refl _) rfl rfl rfl rfl nofun
    · rename_i settled
      split
      · exact kept
      · split
        · exact kept
        · rename_i id here _
          obtain ⟨own,owned,mine,asked,stops⟩ := kept.posts id
          refine ⟨own,owned,mine,asked,fun other inside => ?_⟩
          rcases List.mem_append.mp inside with old | new
          · exact stops other old
          · cases List.mem_singleton.mp new
            exact ⟨List.mem_cons_self,settled,here⟩

theorem stop_timed (timed : Timed s) : Timed (stop s) := by
  unfold stop
  split
  · exact timed
  · rename_i alive
    have alive : s.disposed = false := by simpa using alive
    split
    · exact endProgress_timed (by rw [setState_alive alive]; exact timed.single)
    · split
      · exact timed
      · split
        · exact timed
        · exact ⟨timed.single,timed.held,timed.ready⟩

theorem stopSettled_kept (kept : Kept s) (free : Free s) : Kept (stopSettled done s) := by
  unfold stopSettled
  split
  · exact kept
  · rename_i alive
    have alive : s.disposed = false := by simpa using alive
    split
    · rw [setState_alive alive]
      exact kept.leaves free rfl rfl (List.Subset.refl _) rfl rfl rfl rfl nofun
    · rw [setState_alive alive]
      exact kept.of_core rfl

theorem Kept.answers (kept : Kept s) (here : slot < s.stopping.length) :
    Kept {s with stopping := s.stopping.eraseIdx slot} ∧ Free {s with stopping := s.stopping.eraseIdx slot} := by
  have fewer : s.stopping.eraseIdx slot ⊆ s.stopping := (List.eraseIdx_sublist _ _).subset
  obtain ⟨posted,_,current⟩ := kept.stops _ (List.getElem_mem here)
  exact ⟨⟨kept.own,kept.owned,kept.mine,kept.asked,fun id inside => kept.stops id (fewer inside)⟩,
    .inr (.inr fun id same => Option.some.inj (current.symm.trans same) ▸ posted)⟩

theorem stopSettled_timed (timed : Timed s) : Timed (stopSettled done s) := by
  unfold stopSettled
  split
  · exact timed
  · rename_i alive
    have alive : s.disposed = false := by simpa using alive
    split
    · rw [setState_alive alive]
      exact ⟨timed.single,timed.held,nofun⟩
    · rw [setState_alive alive]
      exact ⟨timed.single,timed.held,timed.ready⟩

theorem tick_core (s : AnalysisStore) : core (tick s) = core s := by
  unfold tick
  split
  · rfl
  · rename_i alive
    rw [setState_alive (by simpa using alive)]
    rfl

theorem tick_timed (timed : Timed s) : Timed (tick s) := by
  unfold tick
  split
  · exact timed
  · rename_i alive
    rw [setState_alive (by simpa using alive)]
    exact ⟨timed.single,timed.held,timed.ready⟩

theorem dispose_kept (kept : Kept s) : Kept (dispose s) := by
  have gone : ∀ ids, s.cancelled ⊆ ids → (∀ id, Owned s id → id ∈ ids) → Kept {s with disposed := true,cancelled := ids} :=
    fun ids more posted => ⟨kept.own,fun id inside => .inr (posted id (kept.owned id inside)),kept.mine,
      fun r inside id question ask => (kept.asked r inside id question ask).imp (fun owned => .inr (posted id owned)) fun here => here,
      fun id inside => (kept.stops id inside).imp (more ·) fun here => here⟩
  have same : core (endProgress {s with disposed := true}) = core {s with disposed := true} := endProgress_core _
  unfold dispose
  split
  · exact kept
  · dsimp only
    split
    · rename_i none'
      refine Kept.of_core (gone s.cancelled (List.Subset.refl _) fun id owned => ?_) same
      rcases owned with ⟨_,_,mine⟩ | posted
      · rw [none'] at mine
        cases mine
      · exact posted
    · rename_i current here
      split
      · refine Kept.of_core (gone (current :: s.cancelled) (List.subset_cons_self _ _) fun id owned => ?_) ?_
        · rcases owned with ⟨_,_,mine⟩ | posted
          · rw [here] at mine
            cases mine
            exact List.mem_cons_self
          · exact List.mem_cons_of_mem _ posted
        · simp only [core,postCancel,Prod.mk.injEq] at same ⊢
          obtain ⟨⟨disposed,phase,id⟩,conversation,inFlight,cancelled,returned,folded⟩ := same
          exact ⟨⟨disposed,phase,id⟩,conversation,inFlight,by rw [cancelled],returned,folded⟩
      · rename_i dead
        refine Kept.of_core (gone s.cancelled (List.Subset.refl _) fun id owned => ?_) same
        exact owned.posted (.inr (.inl (by simpa using dead)))

theorem dispose_timed (timed : Timed s) : Timed (dispose s) := by
  have still : Timed (endProgress {s with disposed := true}) := endProgress_timed timed.single
  unfold dispose
  split
  · exact timed
  · dsimp only
    split
    · exact still
    · split
      · exact ⟨still.single,still.held,still.ready⟩
      · exact still

theorem fold_kept (kept : Kept s) (alive : s.disposed = false) (mine : r.conversation = s.conversation)
    (owns : ∀ id, Owned s id → Owned {s with state := patch s.state} id) (phase : (patch s.state).phase ≠ .requesting)
    (current : ∀ id, Current s id → (patch s.state).analysisSessionId = some id) : Kept (fold r patch s) := by
  unfold fold
  rw [setState_alive (by exact alive)]
  refine ⟨fun from' into inside => ?_,fun id inside => owns id (kept.owned id inside),kept.mine,
    fun r inside id question ask => (kept.asked r inside id question ask).imp (owns id) fun here => ⟨phase,current id here⟩,
    fun id inside => (kept.stops id inside).imp (fun posted => posted) fun here => ⟨phase,current id here⟩⟩
  rcases List.mem_cons.mp inside with same | old
  · cases same
    exact mine
  · exact kept.own from' into old

theorem completedId_some {result : AnalysisResult} (named : completedId result = some id) :
    result.outcome = .completed ∧ result.analysisSessionId = some id := by
  unfold completedId nonempty at named
  split at named
  · exact ⟨‹_›,(Option.filter_eq_some_iff.mp named).1⟩
  · cases named

theorem adopted_phase {question : Option String} {result : AnalysisResult} (state : AnalysisGlueState) :
    (adopted question result state).phase ≠ .requesting := by
  unfold adopted
  split
  · dsimp only
    split <;> nofun
  · nofun
  · dsimp only
    split <;> nofun

theorem adopted_completed {question : Option String} {result : AnalysisResult} (state : AnalysisGlueState)
    (completed : result.outcome = .completed) (here : result.analysisSessionId = some id) :
    (adopted question result state).phase = .ready ∧ (adopted question result state).analysisSessionId = some id := by
  simp [adopted,completed,here]

theorem adopted_id {question : Option String} {result : AnalysisResult} {state : AnalysisGlueState}
    (echo : echoes id (.ok result) = true) (here : state.analysisSessionId = some id) :
    (adopted question result state).analysisSessionId = some id := by
  have only : ∀ other, result.analysisSessionId = some other → other = id := by
    intro other same
    simpa [echoes,same] using echo
  unfold adopted
  split
  · dsimp only
    split
    · rename_i other found
      exact congrArg some (only other (Option.filter_eq_some_iff.mp found).1)
    · exact here
  · cases named : result.analysisSessionId with
    | none => exact here
    | some other => exact congrArg some (only other named)
  · exact here

theorem adopted_ready {question : Option String} {result : AnalysisResult} (state : AnalysisGlueState)
    (stays : remains result = true) : (adopted question result state).phase = .ready := by
  simp only [remains,Bool.or_eq_true,Bool.and_eq_true,decide_eq_true_eq] at stays
  rcases stays with completed | ⟨timeout,kept⟩
  · simp [adopted,completed]
  · obtain ⟨other,found⟩ := Option.isSome_iff_exists.mp kept
    simp [adopted,timeout,found]

theorem dropped_kept (kept : Kept s) : Kept (dropped ask answer s) := by
  unfold dropped
  split
  · cases completedId _ with
    | none => exact kept
    | some id => exact kept.posts id
  · exact kept

theorem dropped_owned (owned : Owned s id) : Owned (dropped ask answer s) id := by
  unfold dropped
  split
  · cases completedId _ with
    | none => exact owned
    | some other => exact owned.imp (fun mine => mine) (List.mem_cons_of_mem _)
  · exact owned

theorem fold_owned (alive : s.disposed = false) (owned : Owned {s with state := patch s.state} id) :
    Owned (fold r patch s) id := by
  unfold fold
  rw [setState_alive (by exact alive)]
  exact owned

-- An answer leaves every session owned, its own included.
structure Settles (r : InFlight) (answer : Except (Option String) AnalysisResult) (s : AnalysisStore) : Prop where
  kept : Kept (answered r answer s)
  owned : ∀ id ∈ named answer, Owned (answered r answer s) id

theorem request_settles (kept : Kept s) (asks : r.ask = .request) (mine : r.conversation = s.conversation) :
    Settles r answer s := by
  have awaited : awaitedPhase r.ask = .requesting := by rw [asks]; rfl
  by_cases late : (s.disposed || s.state.phase ≠ awaitedPhase r.ask) = true
  · have same : answered r answer s = dropped r.ask answer s := if_pos late
    refine ⟨same ▸ dropped_kept kept,fun id inside => ?_⟩
    rw [same,asks]
    cases answer with
    | error reason => cases inside
    | ok result =>
      have here : completedId result = some id := Option.mem_toList.mp inside
      refine .inr ?_
      rw [dropped,here]
      exact List.mem_cons_self
  · have same : answered r answer s = fold r (outcomeOf r.ask answer) s := if_neg late
    rw [awaited] at late
    simp only [ne_eq,decide_not,Bool.or_eq_true,Bool.not_eq_true',decide_eq_false_iff_not,not_or,Bool.not_eq_true,
      Classical.not_not] at late
    obtain ⟨alive,requesting⟩ := late
    have posted : ∀ id, Owned s id → id ∈ s.cancelled := fun id owned =>
      owned.posted (.inr (.inl (by rw [requesting]; rfl)))
    have phase : (outcomeOf r.ask answer s.state).phase ≠ .requesting := by
      rw [asks]
      cases answer with
      | error reason => nofun
      | ok result => exact adopted_phase _
    refine ⟨same ▸ fold_kept kept alive mine (fun id owned => .inr (posted id owned)) phase
      fun id here => absurd requesting here.1,fun id inside => ?_⟩
    rw [same]
    refine fold_owned alive ?_
    rw [asks]
    cases answer with
    | error reason => cases inside
    | ok result =>
      obtain ⟨completed,here⟩ := completedId_some (Option.mem_toList.mp inside)
      have ready := @adopted_completed id none result s.state completed here
      exact .inl ⟨alive,by rw [outcomeOf,ready.1]; rfl,ready.2⟩

theorem followup_id {state : AnalysisGlueState} (echo : echoes id answer = true)
    (here : state.analysisSessionId = some id) : (outcomeOf (.followup id question) answer state).analysisSessionId = some id := by
  cases answer with
  | ok result => exact adopted_id echo here
  | error reason =>
    simp only [outcomeOf,followupFailed]
    split <;> exact here

theorem followup_phase (state : AnalysisGlueState) : (outcomeOf (.followup id question) answer state).phase ≠ .requesting := by
  cases answer with
  | ok result => exact adopted_phase _
  | error reason =>
    simp only [outcomeOf,followupFailed]
    split <;> nofun

theorem followup_ready (state : AnalysisGlueState) (kept : stays answer = true) :
    (outcomeOf (.followup id question) answer state).phase = .ready := by
  cases answer with
  | ok result => exact adopted_ready _ kept
  | error reason =>
    have retryable : failureCode reason ∈ retryableFollowupCodes := by simpa [stays] using kept
    simp [outcomeOf,followupFailed,retryable]

theorem followup_settles (kept : Kept s) (asks : r.ask = .followup id question) (mine : r.conversation = s.conversation)
    (owned : Owned s id) (current : Current s id) (echo : echoes id answer = true)
    (free : s.disposed = true ∨ stays answer = true ∨ id ∈ s.cancelled) : Settles r answer s := by
  have awaited : awaitedPhase r.ask = .answering := by rw [asks]; rfl
  have only : ∀ other ∈ named answer, other = id := by
    intro other inside
    cases answer with
    | error reason => cases inside
    | ok result =>
      obtain ⟨_,here⟩ := completedId_some (Option.mem_toList.mp inside)
      simpa [echoes,here] using echo
  by_cases late : (s.disposed || s.state.phase ≠ awaitedPhase r.ask) = true
  · have same : answered r answer s = dropped r.ask answer s := if_pos late
    refine ⟨same ▸ dropped_kept kept,fun other inside => ?_⟩
    rw [same,only other inside]
    exact dropped_owned owned
  · have same : answered r answer s = fold r (outcomeOf r.ask answer) s := if_neg late
    rw [awaited] at late
    simp only [ne_eq,decide_not,Bool.or_eq_true,Bool.not_eq_true',decide_eq_false_iff_not,not_or,Bool.not_eq_true,
      Classical.not_not] at late
    obtain ⟨alive,_⟩ := late
    have here := current.2
    have after : (outcomeOf r.ask answer s.state).analysisSessionId = some id := by
      rw [asks]
      exact followup_id echo here
    have owns : ∀ other, Owned s other → Owned {s with state := outcomeOf r.ask answer s.state} other := by
      intro other owned
      have free : stays answer = true ∨ id ∈ s.cancelled := by simpa [alive] using free
      rcases free with ready | posted
      · rcases owned with ⟨_,_,same⟩ | posted
        · exact .inl ⟨alive,by simp only [asks,followup_ready s.state ready]; rfl,after.trans (here.symm.trans same)⟩
        · exact .inr posted
      · exact .inr (owned.posted (.inr (.inr fun other same => Option.some.inj (here.symm.trans same) ▸ posted)))
    refine ⟨same ▸ fold_kept kept alive mine owns (by rw [asks]; exact followup_phase _) fun other current' => ?_,
      fun other inside => ?_⟩
    · exact after.trans (here.symm.trans current'.2)
    · rw [same,only other inside]
      exact fold_owned alive (owns id owned)

theorem setState_returned {ids : List String} :
    setState patch {s with returned := ids} = {setState patch s with returned := ids} := by
  unfold setState
  dsimp only
  split <;> rfl

theorem answered_returned {ids : List String} :
    answered r answer {s with returned := ids} = {answered r answer s with returned := ids} := by
  unfold answered
  dsimp only
  split
  · unfold dropped
    split
    · cases completedId _ <;> rfl
    · rfl
  · exact setState_returned (s := {s with folded := (r.conversation,s.conversation) :: s.folded})

theorem answered_timers : (answered r answer s).timers = s.timers ∧ (answered r answer s).progressTimer = s.progressTimer ∧
    (answered r answer s).returned = s.returned := by
  unfold answered
  split
  · unfold dropped
    split
    · cases completedId _ <;> exact ⟨rfl,rfl,rfl⟩
    · exact ⟨rfl,rfl,rfl⟩
  · unfold fold setState
    split <;> exact ⟨rfl,rfl,rfl⟩

theorem Kept.erases (kept : Kept s) : Kept {s with inFlight := s.inFlight.eraseIdx slot} :=
  ⟨kept.own,kept.owned,fun r inside => kept.mine r (List.mem_of_mem_eraseIdx inside),
    fun r inside => kept.asked r (List.mem_of_mem_eraseIdx inside),kept.stops⟩

theorem settled_kept (kept : Kept s) (here : s.inFlight[slot]? = some r)
    (calm : orderly s (.settled slot answer) = true) : Kept (settled slot r answer s) := by
  have inside : r ∈ s.inFlight := List.mem_of_getElem? here
  have settles : Settles r answer {s with inFlight := s.inFlight.eraseIdx slot} := by
    simp only [orderly,here,Option.all_some] at calm
    cases asks : r.ask with
    | request => exact request_settles kept.erases asks (kept.mine r inside)
    | followup id question =>
      obtain ⟨owned,current⟩ := kept.asked r inside id question asks
      simp only [asks,Bool.and_eq_true,Bool.or_eq_true,decide_eq_true_eq,or_assoc] at calm
      exact followup_settles kept.erases asks (kept.mine r inside) owned current calm.1 calm.2
  refine Kept.of_core ?_ (endProgress_core _)
  rw [answered_returned (s := {s with inFlight := s.inFlight.eraseIdx slot})]
  obtain ⟨settled,owned⟩ := settles
  refine ⟨settled.own,fun id among => ?_,settled.mine,settled.asked,settled.stops⟩
  rcases List.mem_append.mp among with new | old
  · exact owned id new
  · exact settled.owned id (by rw [answered_timers.2.2]; exact old)

theorem settled_timed (timed : Timed s) : Timed (settled slot r answer s) := by
  refine endProgress_timed ?_
  rw [answered_timers.1,answered_timers.2.1]
  exact timed.single

structure Steady (s : AnalysisStore) : Prop where
  kept : Kept s
  timed : Timed s

theorem advance_steady (steady : Steady s) (calm : orderly s event = true) (stepped : advance s event = some after) :
    Steady after := by
  obtain ⟨kept,timed⟩ := steady
  cases event with
  | start question => cases Option.some.inj stepped; exact ⟨start_kept kept calm,start_timed timed calm⟩
  | followup question => cases Option.some.inj stepped; exact ⟨followup_kept kept,followup_timed timed⟩
  | stop => cases Option.some.inj stepped; exact ⟨stop_kept kept,stop_timed timed⟩
  | dispose => cases Option.some.inj stepped; exact ⟨dispose_kept kept,dispose_timed timed⟩
  | settled slot answer =>
    obtain ⟨r,here,rfl⟩ := Option.map_eq_some_iff.mp stepped
    exact ⟨settled_kept kept here calm,settled_timed timed⟩
  | stopSettled slot done =>
    obtain ⟨here,stepped⟩ := Option.ite_none_right_eq_some.mp stepped
    cases Option.some.inj stepped
    obtain ⟨left,free⟩ := kept.answers here
    exact ⟨stopSettled_kept left free,stopSettled_timed ⟨timed.single,timed.held,timed.ready⟩⟩
  | tick timer =>
    obtain ⟨_,stepped⟩ := Option.ite_none_right_eq_some.mp stepped
    cases Option.some.inj stepped
    exact ⟨kept.of_core (tick_core s),tick_timed timed⟩

theorem steady_sound (steady : Steady s) : Sound s where
  own := steady.kept.own
  owned := steady.kept.owned
  quiet none' := by
    have idle : s.progressTimer = none := Option.not_isSome_iff_eq_none.mp fun some' => steady.timed.held some' none'
    rw [steady.timed.single,idle]
    rfl

theorem initial_steady : Steady {} :=
  ⟨⟨by simp,by simp,by simp,by simp,by simp⟩,⟨rfl,by simp,by simp⟩⟩

theorem orderly_run_keeps_sessions (path : Run advance (fun s event => orderly s event = true) {} events s) : Sound s :=
  steady_sound (path.invariant Steady initial_steady fun _ _ _ steady calm stepped => advance_steady steady calm stepped)

def insight (id : String) : Except (Option String) AnalysisResult :=
  .ok {outcome := .completed,analysisSessionId := some id,summary := some "insight"}

-- Stopped while its request is in flight, then started again once that has come back; a follow-up
-- that runs out of time and is asked again, and the stop that ends it.
def demoRun : List Event := [.start "why",.stop,.settled 0 (insight "a"),.start "",.tick 1,.settled 0 (insight "b"),
  .followup "more",.settled 0 (.error (some "timeout")),.followup "more",.stop,.stopSettled 0 true,
  .settled 0 (.ok {outcome := .cancelled}),.dispose]

theorem demo_keeps_sessions : ∃ s, Run advance (fun s event => orderly s event = true) {} demoRun s ∧
    s.returned = ["b","a"] ∧ s.cancelled = ["b","a"] ∧ s.timers = [] ∧ s.state.phase = .stopped ∧ Sound s := by
  have shown : ((follow advance (fun s event => orderly s event = true) {} demoRun).map fun s =>
      (s.returned,s.cancelled,s.timers,s.state.phase)) = some (["b","a"],["b","a"],[],.stopped) := by decide +kernel
  obtain ⟨s,path,fields⟩ := Option.map_eq_some_iff.mp shown
  simp only [Prod.mk.injEq] at fields
  obtain ⟨returned,cancelled,timers,phase⟩ := fields
  exact ⟨s,follow_exact.mp path,returned,cancelled,timers,phase,orderly_run_keeps_sessions (follow_exact.mp path)⟩

-- The first request comes back after the second start: its answer goes into the second conversation.
def mixedRun : List Event := [.start "old",.stop,.start "new",.settled 0 (insight "a"),.settled 0 (insight "b")]

-- A follow-up that an engine fault ends: the session is neither kept nor cancelled, not even by dispose().
def strandedRun : List Event := [.start "why",.settled 0 (insight "a"),.followup "more",.settled 0 (.error (some "http")),
  .stop,.dispose]

-- A start while the stopped conversation's follow-up is in flight: its progress timer fires for ever.
def tickingRun : List Event := [.start "why",.settled 0 (insight "a"),.followup "more",.stop,.stopSettled 0 true,.start "again",
  .settled 0 (.error none),.settled 0 (.error none)]

theorem sessions_mixed_and_stranded :
    (∃ s, Run advance Any {} mixedRun s ∧ s.folded = [(1,2)] ∧ s.state.messages = [⟨.user,"new",false,false⟩,
      ⟨.assistant,"insight",false,false⟩] ∧ ¬ Sound s) ∧
    (∃ s, Run advance Any {} strandedRun s ∧ s.returned = ["a"] ∧ s.cancelled = [] ∧ s.disposed = true ∧ ¬ Sound s) ∧
    (∃ s, Run advance Any {} tickingRun s ∧ s.inFlight = [] ∧ s.timers = [1] ∧ ¬ Sound s) := by
  refine ⟨?_,?_,?_⟩
  · have shown : ((follow advance Any {} mixedRun).map fun s => (s.folded,s.state.messages)) =
        some ([(1,2)],[⟨.user,"new",false,false⟩,⟨.assistant,"insight",false,false⟩]) := by decide +kernel
    obtain ⟨s,path,fields⟩ := Option.map_eq_some_iff.mp shown
    obtain ⟨folded,messages⟩ := Prod.mk.inj fields
    refine ⟨s,follow_exact.mp path,folded,messages,fun sound => ?_⟩
    exact absurd (sound.own 1 2 (by simp [folded])) (by decide)
  · have shown : ((follow advance Any {} strandedRun).map fun s => (s.returned,s.cancelled,s.disposed)) =
        some (["a"],[],true) := by decide +kernel
    obtain ⟨s,path,fields⟩ := Option.map_eq_some_iff.mp shown
    simp only [Prod.mk.injEq] at fields
    obtain ⟨returned,cancelled,disposed⟩ := fields
    refine ⟨s,follow_exact.mp path,returned,cancelled,disposed,fun sound => ?_⟩
    rcases sound.owned "a" (by simp [returned]) with ⟨alive,_⟩ | posted
    · rw [disposed] at alive
      cases alive
    · simp [cancelled] at posted
  · have shown : ((follow advance Any {} tickingRun).map fun s => (s.inFlight,s.timers)) = some ([],[1]) := by decide +kernel
    obtain ⟨s,path,fields⟩ := Option.map_eq_some_iff.mp shown
    obtain ⟨inFlight,timers⟩ := Prod.mk.inj fields
    refine ⟨s,follow_exact.mp path,inFlight,timers,fun sound => ?_⟩
    exact absurd (sound.quiet inFlight) (by simp [timers])

end AgentSideCar.AnalysisGlue
