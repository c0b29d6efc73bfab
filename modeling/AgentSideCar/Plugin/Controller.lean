import AgentSideCar.Library.Runs
import AgentSideCar.Plugin.StateStream

namespace AgentSideCar.Controller
open Runs Chronicle
open StateStream (StreamStatus)

inductive DaemonState where | probe | adopted | defer | reprobe | hosting | hosted | backoff | failed
  deriving DecidableEq
inductive StreamHealth where | ok | degraded | unknown
  deriving DecidableEq

structure PingInfo where
  pid : Nat
  version : String
  sourceVersion : Option String := none
  sourceChanged : Option Bool := none
  deriving DecidableEq

-- Times are epoch seconds on the wire, epoch milliseconds in a card.
structure SessionView where
  agent : String
  session_id : String
  status : String
  title : String
  project : String
  updated_at : Rat
  created_at : Option Rat := none
  model : Option String := none
  model_provider : Option String := none
  last_event : Option (String × String) := none
  gap : Bool
  deriving DecidableEq
structure ArchivedSessionView extends SessionView where
  archived_at : Rat
  archive_reason : String
  deriving DecidableEq
structure ArchivePolicy where
  auto : Bool
  autoAfterSeconds : Rat
  defaultIdleSeconds : Rat
  deriving DecidableEq

structure StateSnapshot where
  daemonState : DaemonState
  lastPing : Option PingInfo := none
  sessions : List SessionView := []
  archived : Option (List ArchivedSessionView) := none
  archivePolicy : Option ArchivePolicy := none
  streamHealth : StreamHealth
  lastReconcileAt : Option Rat := none
  inject : Bool
  dispose : Option Bool := none
  deriving DecidableEq

structure SessionCard where
  agent : String
  sessionId : String
  status : String
  title : String
  project : String
  updatedAtMs : Rat
  createdAtMs : Option Rat
  model : Option String
  modelProvider : Option String
  lastEvent : Option (String × String)
  gap : Bool
  deriving DecidableEq
structure ArchivedCard extends SessionCard where
  archivedAtMs : Rat
  archiveReason : String
  deriving DecidableEq
structure DaemonVersionDrift where
  running : String
  installed : String
  codeChanged : Option Bool := none
  deriving DecidableEq

structure SidecarViewState where
  daemonState : DaemonState := .probe
  lastPing : Option PingInfo := none
  daemonDetail : Option String := none
  daemonDrift : Option DaemonVersionDrift := none
  streamHealth : StreamHealth := .unknown
  streamStatus : StreamStatus := .connecting
  lastReconcileAtMs : Option Rat := none
  sessions : List SessionCard := []
  archived : List ArchivedCard := []
  archivePolicy : Option ArchivePolicy := none
  injectCapability : Bool := false
  disposeCapability : Bool := false
  hasSnapshot : Bool := false
  initialLoadFailed : Bool := false
  deriving DecidableEq

def mapSession (session : SessionView) : SessionCard where
  agent := session.agent
  sessionId := session.session_id
  status := session.status
  title := session.title
  project := session.project
  updatedAtMs := session.updated_at * 1000
  createdAtMs := session.created_at.map (· * 1000)
  model := session.model
  modelProvider := session.model_provider
  lastEvent := session.last_event
  gap := session.gap

def mapSessions (sessions : List SessionView) : List SessionCard := sessions.map mapSession

def mapArchived (rows : Option (List ArchivedSessionView)) : List ArchivedCard :=
  (rows.getD []).map fun row =>
    {mapSession row.toSessionView with archivedAtMs := row.archived_at * 1000,archiveReason := row.archive_reason}

def daemonDetailOf (ping : Option PingInfo) : Option String :=
  ping.map fun ping => "pid " ++ toString ping.pid ++ " · v" ++ ping.version

def daemonVersionDriftOf (ping : Option PingInfo) : Option DaemonVersionDrift :=
  ping.bind fun ping => ping.sourceVersion.bind fun installed =>
    if installed = "" ∨ ping.version = "" then none
    else if installed ≠ ping.version then some {running := ping.version,installed := installed}
    else if ping.sourceChanged = some true then
      some {running := ping.version,installed := installed,codeChanged := some true}
    else none

def combineStreamHealth (hostHealth : Option StreamHealth) (browserStatus : StreamStatus) (hasSnapshot : Bool) :
    StreamHealth :=
  match hostHealth with
  | none => .unknown
  | some health => if !hasSnapshot then .unknown else if browserStatus = .degraded then .degraded else health

def mapSnapshot (snapshot : StateSnapshot) (browserStatus : StreamStatus) : SidecarViewState where
  daemonState := snapshot.daemonState
  lastPing := snapshot.lastPing
  daemonDetail := daemonDetailOf snapshot.lastPing
  daemonDrift := daemonVersionDriftOf snapshot.lastPing
  streamHealth := combineStreamHealth (some snapshot.streamHealth) browserStatus true
  streamStatus := browserStatus
  lastReconcileAtMs := snapshot.lastReconcileAt
  sessions := mapSessions snapshot.sessions
  archived := mapArchived snapshot.archived
  archivePolicy := snapshot.archivePolicy
  injectCapability := snapshot.inject
  disposeCapability := snapshot.dispose == some true
  hasSnapshot := true
  initialLoadFailed := false

-- A refresh is known by the generation it began; a pushed snapshot has no other name.
inductive Happening where
  | issued (generation : Nat)
  | refreshed (generation : Nat)
  | discarded (generation : Nat)
  | failed (generation : Nat)
  | pushed
  | status
  | stopped
  deriving DecidableEq

-- The fields, then the refreshes whose fetch has not settled, and what happened, the latest first.
structure SidecarController where
  state : SidecarViewState := {}
  lastHostHealth : Option StreamHealth := none
  started : Bool := false
  disposed : Bool := false
  generation : Nat := 0
  pending : List Nat := []
  happened : List Happening := []

def recorded (happening : Happening) (s : SidecarController) : SidecarController :=
  {s with happened := happening :: s.happened}

def beginGeneration (s : SidecarController) : SidecarController := {s with generation := s.generation + 1}

def isCurrentGeneration (generation : Nat) (s : SidecarController) : Bool :=
  !s.disposed && decide (generation = s.generation)

-- `browserStatus` is the stream's own status when the snapshot is mapped.
def applySnapshot (snapshot : StateSnapshot) (browserStatus : StreamStatus) (generation : Nat)
    (s : SidecarController) : SidecarController :=
  if isCurrentGeneration generation s then
    {s with lastHostHealth := some snapshot.streamHealth,state := mapSnapshot snapshot browserStatus}
  else s

def applyStatus (status : StreamStatus) (generation : Nat) (s : SidecarController) : SidecarController :=
  if !isCurrentGeneration generation s then s
  else if status = s.state.streamStatus then s
  else if status = .degraded && !s.state.hasSnapshot then
    {s with state := {s.state with
      streamStatus := status,streamHealth := .degraded,hasSnapshot := true,initialLoadFailed := true}}
  else
    {s with state := {s.state with
      streamStatus := status
      streamHealth := combineStreamHealth s.lastHostHealth status s.state.hasSnapshot}}

def settleInitialFailure (generation : Nat) (s : SidecarController) : SidecarController :=
  if !isCurrentGeneration generation s then s
  else if s.state.hasSnapshot then s
  else {s with state := {s.state with streamHealth := .degraded,hasSnapshot := true,initialLoadFailed := true}}

def start (s : SidecarController) : SidecarController :=
  if s.started || s.disposed then s else {s with started := true}

def stop (s : SidecarController) : SidecarController :=
  if s.disposed then s else recorded .stopped (beginGeneration {s with disposed := true})

-- The stream calls both callbacks from a copy of its listeners, so also after stop().
def onSnapshot (snapshot : StateSnapshot) (browserStatus : StreamStatus) (s : SidecarController) : SidecarController :=
  let s' := beginGeneration s
  let s' := applySnapshot snapshot browserStatus s'.generation s'
  if s.disposed then s' else recorded .pushed s'
def onStatus (status : StreamStatus) (s : SidecarController) : SidecarController :=
  let s' := beginGeneration s
  recorded .status (applyStatus status s'.generation s')

-- refresh() up to its await, and what follows once the fetch has settled. A fetch that throws
-- at once settles at once.
def refresh (s : SidecarController) : SidecarController :=
  if s.disposed then s else
  let s := beginGeneration s
  recorded (.issued s.generation) {s with pending := s.generation :: s.pending}

def refreshFetched (generation : Nat) (snapshot : StateSnapshot) (browserStatus : StreamStatus)
    (s : SidecarController) : SidecarController :=
  let s := {s with pending := s.pending.erase generation}
  if !isCurrentGeneration generation s then recorded (.discarded generation) s
  else recorded (.refreshed generation) (applySnapshot snapshot browserStatus generation s)

def refreshFailed (generation : Nat) (s : SidecarController) : SidecarController :=
  let s := recorded (.failed generation) {s with pending := s.pending.erase generation}
  if !isCurrentGeneration generation s then s else settleInitialFailure generation s

-- A listener that notify() calls may call back into the controller; that call is the next event.
inductive Event where
  | start
  | stop
  | snapshot (snapshot : StateSnapshot) (browserStatus : StreamStatus)
  | status (status : StreamStatus)
  | refresh
  | fetched (generation : Nat) (snapshot : StateSnapshot) (browserStatus : StreamStatus)
  | failed (generation : Nat)

def advance (s : SidecarController) : Event → Option SidecarController
  | .start => some (start s)
  | .stop => some (stop s)
  | .snapshot snapshot browserStatus => if s.started then some (onSnapshot snapshot browserStatus s) else none
  | .status status => if s.started then some (onStatus status s) else none
  | .refresh => some (refresh s)
  | .fetched generation snapshot browserStatus =>
    if generation ∈ s.pending then some (refreshFetched generation snapshot browserStatus s) else none
  | .failed generation => if generation ∈ s.pending then some (refreshFailed generation s) else none

-- What leaves the current generation alone and shows no snapshot.
def Happening.still : Happening → Bool
  | .discarded _ | .failed _ => true
  | _ => false

def Quiet (generation : Nat) (history : List Happening) : Prop :=
  ∀ happening ∈ since (.issued generation) history, happening.still = true

theorem quiet_issued : Quiet generation (.issued generation :: history) := by simp [Quiet]

theorem quiet_other (other : happening ≠ .issued generation) :
    Quiet generation (happening :: history) ↔ happening.still = true ∧ Quiet generation history := by
  simp [Quiet,since_other other]

def outcome (happening : Happening) (earlier : List Happening) : Prop :=
  match happening with
  | .discarded generation => ¬ Quiet generation earlier
  | .refreshed generation => Quiet generation earlier
  | _ => True

-- A refresh in flight is current exactly while nothing but settlements followed its issue.
structure Kept (s : SidecarController) : Prop where
  bounded : ∀ g ∈ s.pending, g ≤ s.generation
  single : s.pending.Nodup
  current : ∀ g ∈ s.pending, isCurrentGeneration g s = true ↔ Quiet g s.happened
  outcomes : Each outcome s.happened

theorem Kept.records (kept : Kept s) (happening : Happening) (fewer : s'.pending.Sublist s.pending)
    (grown : s.generation ≤ s'.generation) (told : s'.happened = happening :: s.happened)
    (other : ∀ g ∈ s'.pending, happening ≠ .issued g) (law : outcome happening s.happened)
    (agree : ∀ g ∈ s'.pending, isCurrentGeneration g s' = true ↔
      happening.still = true ∧ isCurrentGeneration g s = true) : Kept s' where
  bounded g inside := Nat.le_trans (kept.bounded g (fewer.subset inside)) grown
  single := fewer.nodup kept.single
  current g inside := by
    rw [agree g inside,told,quiet_other (other g inside),kept.current g (fewer.subset inside)]
  outcomes := by rw [told]; exact ⟨law,kept.outcomes⟩

theorem current_exact : isCurrentGeneration g s = true ↔ s.disposed = false ∧ g = s.generation := by
  simp [isCurrentGeneration]

-- Only the view changes: what a continuation checks and what happened stay.
def ViewOnly (s s' : SidecarController) : Prop :=
  s' = {s with state := s'.state,lastHostHealth := s'.lastHostHealth}

theorem apply_viewOnly : ViewOnly s (applySnapshot snapshot browserStatus g s) := by
  unfold applySnapshot
  split <;> rfl

theorem status_viewOnly : ViewOnly s (applyStatus status g s) := by
  unfold applyStatus
  split
  · rfl
  · split
    · rfl
    · split <;> rfl

theorem settle_viewOnly : ViewOnly s (settleInitialFailure g s) := by
  unfold settleInitialFailure
  split
  · rfl
  · split <;> rfl

theorem Kept.viewOnly (kept : Kept s) (only : ViewOnly s s') : Kept s' := by
  rw [only]
  exact ⟨kept.bounded,kept.single,kept.current,kept.outcomes⟩

theorem Kept.begins (kept : Kept s) (happening : Happening) (loud : happening.still = false)
    (other : ∀ g, happening ≠ .issued g) (law : outcome happening s.happened) :
    Kept (recorded happening (beginGeneration s)) :=
  kept.records happening (List.Sublist.refl _) (Nat.le_succ _) rfl (fun g _ => other g) law
    fun g inside => by simp [loud,recorded,isCurrentGeneration,beginGeneration,
      show g ≠ s.generation + 1 from by have := kept.bounded g inside; omega]

theorem Kept.settles (kept : Kept s) (happening : Happening) (calm : happening.still = true)
    (law : outcome happening s.happened) :
    Kept (recorded happening {s with pending := s.pending.erase generation}) :=
  kept.records happening List.erase_sublist (Nat.le_refl _) rfl
    (fun g _ same => by rw [same] at calm; cases calm) law fun g _ => by
      simp only [calm,true_and]
      rfl

theorem stop_kept (kept : Kept s) : Kept (stop s) := by
  unfold stop
  split
  · exact kept
  · refine kept.records .stopped (List.Sublist.refl _) (Nat.le_succ _) rfl (fun _ _ => nofun) trivial ?_
    intro g _
    simp [recorded,isCurrentGeneration,beginGeneration,Happening.still]

theorem ViewOnly.recorded (only : ViewOnly s s') : ViewOnly (recorded happening s) (recorded happening s') := by
  rw [only]
  rfl

theorem disposed_kept (kept : Kept s) (gone : s.disposed = true) : Kept (beginGeneration s) where
  bounded g inside := Nat.le_succ_of_le (kept.bounded g inside)
  single := kept.single
  current g inside := by
    have same := kept.current g inside
    simpa [isCurrentGeneration,beginGeneration,gone] using same
  outcomes := kept.outcomes

theorem snapshot_kept (kept : Kept s) : Kept (onSnapshot snapshot browserStatus s) := by
  unfold onSnapshot
  dsimp only
  split
  · rename_i gone
    exact (disposed_kept kept gone).viewOnly apply_viewOnly
  · exact (kept.begins .pushed rfl (fun _ => nofun) trivial).viewOnly apply_viewOnly.recorded

theorem status_kept (kept : Kept s) : Kept (onStatus status s) :=
  (kept.begins .status rfl (fun _ => nofun) trivial).viewOnly status_viewOnly.recorded

theorem refresh_kept (kept : Kept s) : Kept (refresh s) := by
  unfold refresh
  split
  · exact kept
  · rename_i alive
    have fresh : ∀ g ∈ s.pending, g ≠ s.generation + 1 := fun g inside => by
      have := kept.bounded g inside
      omega
    refine ⟨?_,?_,?_,trivial,kept.outcomes⟩
    · intro g inside
      rcases List.mem_cons.mp inside with rfl | inside
      · exact Nat.le_refl _
      · exact Nat.le_succ_of_le (kept.bounded g inside)
    · exact List.nodup_cons.mpr ⟨fun inside => fresh _ inside rfl,kept.single⟩
    · intro g inside
      rcases List.mem_cons.mp inside with rfl | inside
      · simp [recorded,isCurrentGeneration,beginGeneration,quiet_issued,alive]
      · have other : Happening.issued (s.generation + 1) ≠ .issued g := fun same => fresh g inside (by cases same; rfl)
        simp [recorded,isCurrentGeneration,beginGeneration,quiet_other other,Happening.still,fresh g inside]

theorem fetched_kept (kept : Kept s) (inside : generation ∈ s.pending) :
    Kept (refreshFetched generation snapshot browserStatus s) := by
  unfold refreshFetched
  dsimp only
  split
  · rename_i stale
    refine kept.settles (.discarded generation) rfl fun quiet => ?_
    have live : isCurrentGeneration generation s = true := (kept.current generation inside).mpr quiet
    rw [show isCurrentGeneration generation {s with pending := s.pending.erase generation} =
      isCurrentGeneration generation s from rfl,live] at stale
    cases stale
  · rename_i live
    have live : isCurrentGeneration generation s = true := by simpa [isCurrentGeneration] using live
    refine Kept.viewOnly (s := recorded (.refreshed generation) {s with pending := s.pending.erase generation}) ?_
      apply_viewOnly.recorded
    refine kept.records (.refreshed generation) List.erase_sublist (Nat.le_refl _) rfl (fun _ _ => nofun)
      ((kept.current generation inside).mp live) fun g left => ?_
    -- Only one refresh is current, and it has just left.
    have other : g ≠ generation := (kept.single.mem_erase_iff.mp left).1
    have past : g ≠ s.generation := (current_exact.mp live).2 ▸ other
    simp [recorded,isCurrentGeneration,Happening.still,past]

theorem fetched_told (stepped : advance s (.fetched g snapshot browserStatus) = some after) :
    (after.happened = .refreshed g :: s.happened ∧ after.state = mapSnapshot snapshot browserStatus) ∨
      (after.happened = .discarded g :: s.happened ∧ after.state = s.state) := by
  obtain ⟨_,stepped⟩ := Option.ite_none_right_eq_some.mp stepped
  cases Option.some.inj stepped
  unfold refreshFetched
  dsimp only
  split
  · exact .inr ⟨rfl,rfl⟩
  · rename_i live
    exact .inl (by simp_all [recorded,applySnapshot])

theorem failed_kept (kept : Kept s) : Kept (refreshFailed generation s) := by
  unfold refreshFailed
  dsimp only
  have settled : Kept (recorded (.failed generation) {s with pending := s.pending.erase generation}) :=
    kept.settles (.failed generation) rfl trivial
  split
  · exact settled
  · exact settled.viewOnly settle_viewOnly

theorem advance_kept (kept : Kept s) (stepped : advance s event = some after) : Kept after := by
  cases event with
  | start =>
    cases Option.some.inj stepped
    unfold start
    split
    · exact kept
    · exact ⟨kept.bounded,kept.single,kept.current,kept.outcomes⟩
  | stop => cases Option.some.inj stepped; exact stop_kept kept
  | snapshot snapshot browserStatus =>
    obtain ⟨_,stepped⟩ := Option.ite_none_right_eq_some.mp stepped
    cases Option.some.inj stepped
    exact snapshot_kept kept
  | status status =>
    obtain ⟨_,stepped⟩ := Option.ite_none_right_eq_some.mp stepped
    cases Option.some.inj stepped
    exact status_kept kept
  | refresh => cases Option.some.inj stepped; exact refresh_kept kept
  | fetched generation snapshot browserStatus =>
    obtain ⟨inside,stepped⟩ := Option.ite_none_right_eq_some.mp stepped
    cases Option.some.inj stepped
    exact fetched_kept kept inside
  | failed generation =>
    obtain ⟨_,stepped⟩ := Option.ite_none_right_eq_some.mp stepped
    cases Option.some.inj stepped
    exact failed_kept kept

theorem initial_kept : Kept {} :=
  ⟨fun _ inside => absurd inside List.not_mem_nil,List.nodup_nil,fun _ inside => absurd inside List.not_mem_nil,trivial⟩

theorem run_kept (path : Run advance Any {} events s) : Kept s :=
  path.invariant Kept initial_kept fun _ _ _ kept _ stepped => advance_kept kept stepped


def Happening.shows : Happening → Bool
  | .refreshed _ | .pushed => true
  | _ => false
def Happening.supersedes (happening : Happening) : Bool := happening.shows || decide (happening = .stopped)
-- A status event or another refresh: it begins a generation and brings no snapshot.
def Happening.disturbs : Happening → Bool
  | .issued _ | .status => true
  | _ => false
-- The fetch of this refresh brought a snapshot, whatever became of it.
def Happening.brings (generation : Nat) (happening : Happening) : Prop :=
  happening = .refreshed generation ∨ happening = .discarded generation

def DiscardsOnlySuperseded : List Happening → Prop :=
  Each fun happening earlier => ∀ g, happening = .discarded g →
    ∃ x ∈ since (.issued g) earlier, x.supersedes = true

def NeverOverwrites : List Happening → Prop :=
  Each fun happening earlier => ∀ g, happening = .refreshed g → ∀ x ∈ since (.issued g) earlier, x.shows = false

def Undisturbed : List Happening → Prop :=
  Each fun happening earlier => ∀ g, happening.brings g →
    (∀ x ∈ since (.issued g) earlier, x.supersedes = false) → ∀ x ∈ since (.issued g) earlier, x.disturbs = false

theorem still_exact (happening : Happening) :
    happening.still = true ↔ happening.supersedes = false ∧ happening.disturbs = false := by
  cases happening <;> simp [Happening.still,Happening.supersedes,Happening.shows,Happening.disturbs]

theorem still_hides {happening : Happening} (calm : happening.still = true) : happening.shows = false := by
  cases happening <;> first | rfl | cases calm

theorem outcome_never {happening : Happening} (law : outcome happening earlier) :
    ∀ g, happening = .refreshed g → ∀ x ∈ since (.issued g) earlier, x.shows = false := by
  intro g same x inside
  subst same
  exact still_hides (law x inside)

theorem outcome_exact {happening : Happening} (law : outcome happening earlier) :
    (∀ g, happening = .discarded g → ∃ x ∈ since (.issued g) earlier, x.supersedes = true) ↔
      ∀ g, happening.brings g → (∀ x ∈ since (.issued g) earlier, x.supersedes = false) →
        ∀ x ∈ since (.issued g) earlier, x.disturbs = false := by
  constructor
  · intro superseded g brings alone x inside
    rcases brings with rfl | rfl
    · exact ((still_exact x).mp (law x inside)).2
    · obtain ⟨y,after,supersedes⟩ := superseded g rfl
      rw [alone y after] at supersedes
      cases supersedes
  · intro undisturbed g same
    subst same
    by_cases superseded : ∃ x ∈ since (.issued g) earlier, x.supersedes = true
    · exact superseded
    · have alone : ∀ x ∈ since (.issued g) earlier, x.supersedes = false := fun x inside =>
        Bool.eq_false_iff.mpr fun supersedes => superseded ⟨x,inside,supersedes⟩
      exact absurd (fun x inside => (still_exact x).mpr ⟨alone x inside,undisturbed g (Or.inr rfl) alone x inside⟩) law

theorem each_agree {law first second : Happening → List Happening → Prop}
    (agree : ∀ x earlier, law x earlier → (first x earlier ↔ second x earlier)) :
    ∀ {history : List Happening}, Each law history → (Each first history ↔ Each second history)
  | [],_ => Iff.rfl
  | _ :: _,⟨here,rest⟩ => and_congr (agree _ _ here) (each_agree agree rest)

theorem refresh_outcomes (path : Run advance Any {} events s) :
    (DiscardsOnlySuperseded s.happened ∧ NeverOverwrites s.happened ↔ Undisturbed s.happened) ∧
      NeverOverwrites s.happened := by
  have laws := (run_kept path).outcomes
  have never : NeverOverwrites s.happened := laws.imp fun _ _ => outcome_never
  exact ⟨(and_iff_left never).trans (each_agree (fun _ _ => outcome_exact) laws),never⟩

def emptyBoard : StateSnapshot := {daemonState := .hosted,streamHealth := .ok,inject := false}

-- A refresh that a pushed snapshot overtakes, then one that nothing disturbs.
def demoRun : List Event := [.start,.status .open,.refresh,.snapshot emptyBoard .open,.fetched 2 emptyBoard .open,
  .refresh,.fetched 4 {emptyBoard with inject := true} .open]

theorem demo_refresh_outcomes : ∃ s, Run advance Any {} demoRun s ∧
    s.happened = [.refreshed 4,.issued 4,.discarded 2,.pushed,.issued 2,.status] ∧ s.state.injectCapability = true ∧
    (DiscardsOnlySuperseded s.happened ∧ NeverOverwrites s.happened ↔ Undisturbed s.happened) ∧
      NeverOverwrites s.happened := by
  have shown : ((follow advance Any {} demoRun).map fun s => (s.happened,s.state.injectCapability)) =
      some ([.refreshed 4,.issued 4,.discarded 2,.pushed,.issued 2,.status],true) := by decide +kernel
  obtain ⟨s,path,fields⟩ := Option.map_eq_some_iff.mp shown
  obtain ⟨happened,capability⟩ := Prod.mk.inj fields
  exact ⟨s,follow_exact.mp path,happened,capability,refresh_outcomes (follow_exact.mp path)⟩

-- The stream opens while the first refresh is in flight: the snapshot it brings is thrown away,
-- and the board stays empty.
def statusRun : List Event := [.start,.refresh,.status .open,.fetched 1 emptyBoard .open]

theorem status_discards_refresh : ∃ s, Run advance Any {} statusRun s ∧
    s.happened = [.discarded 1,.status,.issued 1] ∧ s.state.hasSnapshot = false ∧ ¬ DiscardsOnlySuperseded s.happened := by
  have shown : ((follow advance Any {} statusRun).map fun s => (s.happened,s.state.hasSnapshot)) =
      some ([.discarded 1,.status,.issued 1],false) := by decide +kernel
  obtain ⟨s,path,fields⟩ := Option.map_eq_some_iff.mp shown
  obtain ⟨happened,pending⟩ := Prod.mk.inj fields
  refine ⟨s,follow_exact.mp path,happened,pending,fun superseded => ?_⟩
  rw [happened] at superseded
  obtain ⟨x,inside,supersedes⟩ := superseded.1 1 rfl
  have single : x = .status := by simpa [since] using inside
  subst single
  cases supersedes

end AgentSideCar.Controller
