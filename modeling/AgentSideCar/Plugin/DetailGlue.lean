import AgentSideCar.Library.Requests
import AgentSideCar.Library.Runs

namespace AgentSideCar.DetailGlue
open Requests Runs

inductive HealthKind where | healthy | partially | failed | unverified
  deriving DecidableEq

-- What else a health carries (its summary and scope) is handed on as it is.
structure TimelineHealth (ν : Type) where
  kind : HealthKind
  legacy : Bool
  note : Option ν

def legacyTimelineHealth {ν : Type} : TimelineHealth ν := ⟨.healthy,true,none⟩

def isDegradedHealth {ν : Type} (health : TimelineHealth ν) : Bool := health.kind = .partially || health.kind = .failed

def aggregateTimelineHealth {ν : Type} (current incoming : TimelineHealth ν) (initialOfGeneration : Bool) : TimelineHealth ν :=
  if initialOfGeneration && incoming.kind = .healthy && !incoming.legacy then incoming
  else if current.kind = .failed || incoming.kind = .failed then if current.kind = .failed then current else incoming
  else if isDegradedHealth current || isDegradedHealth incoming then if isDegradedHealth current then current else incoming
  else incoming

structure DetailHeaderHint where
  agent : String := ""
  title : String := ""
  project : String := ""
  status : String := ""
  updatedAtMs : Option Rat := none
  createdAtMs : Option Rat := none
  transcript : Option String := none
  model : Option String := none
  modelProvider : Option String := none
  deriving DecidableEq

structure LineageBody (χ : Type) where
  available : Bool
  reason : Option String
  detail : Option String
  trace : Option χ

structure LineageSliceState (χ : Type) extends LineageBody χ where
  loading : Bool
  error : Option String

structure DetailGlueState (τ ν χ : Type) where
  header : DetailHeaderHint
  timeline : τ
  timelineHealth : TimelineHealth ν
  loading : Bool
  error : Option String
  hasMore : Bool
  listening : Bool
  refreshing : Bool
  ready : Bool
  lineage : LineageSliceState χ

-- The pages and details of the wire, and what detail/logic.ts, api.ts and dsh-tools/logic.ts make of them.
structure Logic (τ π ν χ ω : Type) where
  createTimelineVM : τ
  applyTimelinePage : τ → π → τ
  applyListenPage : τ → π → τ
  nextCursor : τ → Option String
  normalizeTimelineHealth : π → TimelineHealth ν
  headerFromDetailWire : ω → Option DetailHeaderHint
  timeline : ω → Option π
  unknownAgent : String → Bool
  externalLineageFallback : String → Option (LineageBody χ)

inductive Kind where | detail | page | refresh | listen | lineage
  deriving DecidableEq

def Kind.timeline : Kind → Bool
  | .page | .refresh | .listen => true
  | _ => false

-- The generation a request belongs to, its cursor, and how many snapshots the store had been told of.
structure Asked where
  generation : Nat
  timelineGeneration : Nat
  cursor : Option String
  since : Nat

-- Beside the store's own fields: how many snapshots it has been told of, when the newest window applied last was
-- asked for, and whether such a request has failed since the last snapshot.
structure DetailStore (τ ν χ : Type) where
  state : DetailGlueState τ ν χ
  disposed : Bool := false
  opened : Bool := false
  detailGeneration : Nat := 0
  detailInFlight : Option Nat := none
  detailQueued : Bool := false
  timelineGeneration : Nat := 0
  paging : Bool := false
  listenInFlight : Bool := false
  listenQueued : Bool := false
  refreshInFlight : Bool := false
  lineageStarted : Bool := false
  requests : List (Request Kind Asked) := []
  notified : Nat := 0
  window : Option Nat := none
  failed : Bool := false

variable {τ π ν χ ω : Type}

section Store
variable (l : Logic τ π ν χ ω) (s : DetailStore τ ν χ)

def initialLineage : LineageSliceState χ := ⟨⟨false,none,none,none⟩,true,none⟩

def newStore (hint : Option DetailHeaderHint) : DetailStore τ ν χ where
  state := {
    header := hint.getD {}
    timeline := l.createTimelineVM
    timelineHealth := legacyTimelineHealth
    loading := false
    error := none
    hasMore := false
    listening := false
    refreshing := false
    ready := false
    lineage := initialLineage}

def setState (patch : DetailGlueState τ ν χ → DetailGlueState τ ν χ) : DetailStore τ ν χ :=
  if s.disposed then s else {s with state := patch s.state}

def startRequest (kind : Kind) (cursor : Option String) : DetailStore τ ν χ :=
  let generation := if kind = .detail then s.detailGeneration else s.timelineGeneration
  {s with requests := start kind ⟨generation,s.timelineGeneration,cursor,s.notified⟩ s.requests}

def finishRequest (id : Nat) : DetailStore τ ν χ := {s with requests := settle id s.requests}

def isCurrentTimelineRequest (r : Request Kind Asked) : Bool :=
  !s.disposed && !r.aborted && r.asked.generation = s.timelineGeneration

def isCurrentDetailRequest (id : Nat) (r : Request Kind Asked) : Bool :=
  !s.disposed && !r.aborted && r.asked.generation = s.detailGeneration && s.detailInFlight = some id

-- What is aborted already stays so; the requests still listed are those neither settled nor aborted.
def beginTimelineGeneration : DetailStore τ ν χ :=
  {s with
    timelineGeneration := s.timelineGeneration + 1
    requests := abort Kind.timeline s.requests
    paging := false
    listenInFlight := false
    listenQueued := false
    refreshInFlight := false}

def startDetailRefresh : DetailStore τ ν χ :=
  {startRequest s .detail none with detailInFlight := some s.requests.length}

def scheduleDetailRefresh : DetailStore τ ν χ :=
  if s.disposed || !s.opened then s
  else
    let s := {s with detailGeneration := s.detailGeneration + 1}
    match s.detailInFlight with
    | some id => {s with requests := abortAt id s.requests,detailQueued := true}
    | none => startDetailRefresh s

def openStore : DetailStore τ ν χ :=
  if s.opened || s.disposed then s
  else
    let s := beginTimelineGeneration {s with opened := true}
    let s := {s with detailGeneration := s.detailGeneration + 1}
    startDetailRefresh (setState s fun v => {v with loading := true,error := none})

def loadMore : DetailStore τ ν χ :=
  if s.disposed || s.paging || s.refreshInFlight || !s.state.ready then s
  else match l.nextCursor s.state.timeline with
    | none => s
    | some cursor =>
      setState {startRequest s .page (some cursor) with paging := true} fun v => {v with loading := true,error := none}

def scheduleListenRefetch : DetailStore τ ν χ :=
  if s.disposed || !s.state.ready || s.refreshInFlight then s
  else if s.listenInFlight then {s with listenQueued := true}
  else {startRequest s .listen none with listenInFlight := true}

def toggleListen : DetailStore τ ν χ :=
  let listening := !s.state.listening
  let s := setState s fun v => {v with listening := listening}
  if listening then scheduleListenRefetch s else s

def refreshNewest : DetailStore τ ν χ :=
  if s.disposed || !s.state.ready then s
  else
    let s := startRequest (beginTimelineGeneration s) .refresh none
    setState {s with refreshInFlight := true} fun v => {v with loading := false,refreshing := true,error := none}

-- The card of a board frame carries no transcript of its own.
def cardHeader (card header : DetailHeaderHint) : DetailHeaderHint :=
  {card with transcript := card.transcript.or header.transcript}

def notifySnapshot (card : Option DetailHeaderHint) : DetailStore τ ν χ :=
  let s := {s with notified := s.notified + 1,failed := false}
  if s.disposed then s
  else
    let s := match card with
      | some card => setState s fun v => {v with header := cardHeader card v.header}
      | none => s
    let s := scheduleDetailRefresh s
    if s.state.listening && s.state.ready then scheduleListenRefetch s else s

def dispose : DetailStore τ ν χ :=
  if s.disposed then s
  else {s with
    disposed := true
    detailGeneration := s.detailGeneration + 1
    timelineGeneration := s.timelineGeneration + 1
    requests := abort (fun _ => true) s.requests
    detailInFlight := none
    detailQueued := false
    listenQueued := false}

def slice (body : LineageBody χ) : LineageSliceState χ := {toLineageBody := body,loading := false,error := none}

def loadLineage (agent : String) : DetailStore τ ν χ :=
  if s.lineageStarted || s.disposed then s
  else
    let s := {s with lineageStarted := true}
    if l.unknownAgent agent then
      setState s fun v => {v with lineage := slice ⟨false,some "not_dsh_session",none,none⟩}
    else match l.externalLineageFallback agent with
      | some fallback => setState s fun v => {v with lineage := slice {fallback with detail := none}}
      | none => startRequest s .lineage none

-- A detail that comes before the store is ready brings the newest window with it.
def detailArrives (r : Request Kind Asked) (wire : ω) : DetailStore τ ν χ :=
  let header := (l.headerFromDetailWire wire).getD s.state.header
  let s :=
    if s.state.ready then setState s fun v => {v with header := header}
    else match l.timeline wire with
      | none => setState s fun v => {v with header := header,loading := false,error := some "fusion_not_wired"}
      | some page =>
        if r.asked.timelineGeneration ≠ s.timelineGeneration then
          setState s fun v => {v with header := header,loading := false,error := some "fusion_not_wired"}
        else
          let timeline := l.applyTimelinePage l.createTimelineVM page
          setState {s with window := some r.asked.since} fun v => {v with
            header := header
            timeline := timeline
            timelineHealth := aggregateTimelineHealth v.timelineHealth (l.normalizeTimelineHealth page) true
            loading := false
            error := none
            hasMore := (l.nextCursor timeline).isSome
            ready := true}
  loadLineage l s header.agent

def detailFails (reason : String) : DetailStore τ ν χ :=
  if s.state.ready then s
  else
    let s := setState s fun v => {v with loading := false,error := some reason}
    loadLineage l s s.state.header.agent

def detailSettles (id : Nat) (r : Request Kind Asked) (result : Except String ω) : DetailStore τ ν χ :=
  let s :=
    if isCurrentDetailRequest s id r then match result with
      | .ok wire => detailArrives l s r wire
      | .error reason => detailFails l s reason
    else s
  let s := finishRequest s id
  if s.detailInFlight ≠ some id then s
  else
    let s := {s with detailInFlight := none}
    if s.detailQueued && !s.disposed then startDetailRefresh {s with detailQueued := false} else s

def pageArrives (page : π) : DetailStore τ ν χ :=
  let next := l.applyTimelinePage s.state.timeline page
  setState s fun v => {v with
    timeline := next
    timelineHealth := aggregateTimelineHealth v.timelineHealth (l.normalizeTimelineHealth page) false
    loading := false
    hasMore := (l.nextCursor next).isSome}

def pageSettles (id : Nat) (r : Request Kind Asked) (result : Except String π) : DetailStore τ ν χ :=
  let s :=
    if isCurrentTimelineRequest s r then match result with
      | .ok page => pageArrives l s page
      | .error reason => setState s fun v => {v with loading := false,error := some reason}
    else s
  let s := finishRequest s id
  if r.asked.generation = s.timelineGeneration then {s with paging := false} else s

-- The newest window, on request of the user or of listen mode.
def windowArrives (initialOfGeneration : Bool) (r : Request Kind Asked) (page : π) : DetailStore τ ν χ :=
  setState {s with window := some r.asked.since} fun v => {v with
    timeline := l.applyListenPage v.timeline page
    timelineHealth := aggregateTimelineHealth v.timelineHealth (l.normalizeTimelineHealth page) initialOfGeneration}

def refreshSettles (id : Nat) (r : Request Kind Asked) (result : Except String π) : DetailStore τ ν χ :=
  let s :=
    if isCurrentTimelineRequest s r then match result with
      | .ok page => setState (windowArrives l s true r page) fun v => {v with refreshing := false}
      | .error reason => setState {s with failed := true} fun v => {v with refreshing := false,error := some reason}
    else s
  let s := finishRequest s id
  if r.asked.generation = s.timelineGeneration then {s with refreshInFlight := false} else s

def listenSettles (id : Nat) (r : Request Kind Asked) (result : Except String π) : DetailStore τ ν χ :=
  let s :=
    if isCurrentTimelineRequest s r then match result with
      | .ok page => windowArrives l s false r page
      | .error _ => {s with failed := true}
    else s
  let s := finishRequest s id
  if r.asked.generation ≠ s.timelineGeneration || s.disposed then s
  else
    let s := {s with listenInFlight := false}
    if s.listenQueued then scheduleListenRefetch {s with listenQueued := false} else s

def lineageSettles (id : Nat) (r : Request Kind Asked) (result : Except String (LineageBody χ)) : DetailStore τ ν χ :=
  let s := finishRequest s id
  match result with
  | .ok body => if s.disposed || r.aborted then s else setState s fun v => {v with lineage := slice body}
  | .error reason =>
    if s.disposed then s else setState s fun v => {v with lineage := {(initialLineage : LineageSliceState χ) with
      loading := false
      error := some reason}}

end Store

inductive Event (π χ ω : Type) where
  | opens
  | loadMore
  | toggleListen
  | refreshNewest
  | notifySnapshot (card : Option DetailHeaderHint)
  | dispose
  | detailSettles (id : Nat) (result : Except String ω)
  | windowSettles (id : Nat) (result : Except String π)
  | lineageSettles (id : Nat) (result : Except String (LineageBody χ))

-- A request that is there and has not settled.
def pending (s : DetailStore τ ν χ) (id : Nat) : Option (Request Kind Asked) := s.requests[id]?.filter (!·.settled)

-- None where the event cannot be: there is no such request, or it has settled.
def advance (l : Logic τ π ν χ ω) (s : DetailStore τ ν χ) (event : Event π χ ω) : Option (DetailStore τ ν χ) :=
  match event with
  | .opens => some (openStore s)
  | .loadMore => some (loadMore l s)
  | .toggleListen => some (toggleListen s)
  | .refreshNewest => some (refreshNewest s)
  | .notifySnapshot card => some (notifySnapshot s card)
  | .dispose => some (dispose s)
  | .detailSettles id result => (pending s id).bind fun r =>
      if r.kind = .detail then some (detailSettles l s id r result) else none
  | .windowSettles id result => (pending s id).bind fun r => match r.kind with
    | .page => some (pageSettles l s id r result)
    | .refresh => some (refreshSettles l s id r result)
    | .listen => some (listenSettles l s id r result)
    | _ => none
  | .lineageSettles id result => (pending s id).bind fun r =>
      if r.kind = .lineage then some (lineageSettles s id r result) else none

def busy (s : DetailStore τ ν χ) : Kind → Bool
  | .page => s.paging
  | .refresh => s.refreshInFlight
  | .listen => s.listenInFlight
  | _ => false

-- What the requests of a store that is not disposed are, beside its flags.
structure Owned (s : DetailStore τ ν χ) : Prop where
  running : s.disposed = false
  counts : ∀ k, k.timeline = true → flying k s.requests = (busy s k).toNat
  current : ∀ k, k.timeline = true → Fits k (fun a => a.generation = s.timelineGeneration) s.requests
  placed : ∀ r ∈ s.requests, r.kind.timeline = true → r.asked.generation < s.timelineGeneration ∨
    r.asked.generation = s.timelineGeneration ∧ r.aborted = false
  apart : s.listenInFlight = true → s.refreshInFlight = false
  slot : ∀ id, s.detailInFlight = some id → ∃ r, s.requests[id]? = some r ∧ r.kind = .detail ∧ r.settled = false ∧
    (r.aborted = true → s.detailQueued = true) ∧
      (r.aborted = false → r.asked.generation = s.detailGeneration ∧ r.asked.since = s.notified)
  lineage : ∀ r ∈ s.requests, r.kind = .lineage → r.aborted = false

-- What the store shows, beside its flags.
structure Shown (s : DetailStore τ ν χ) : Prop where
  begun : s.state.ready = true ∨ s.detailInFlight.isSome = true → s.opened = true
  ready : s.paging = true ∨ s.listenInFlight = true ∨ s.refreshInFlight = true → s.state.ready = true
  loading : s.state.loading = true → s.paging = true ∨ s.state.ready = false ∧ s.detailInFlight.isSome = true
  refreshing : s.state.refreshing = true → s.refreshInFlight = true

section Steps
variable {l : Logic τ π ν χ ω} {s : DetailStore τ ν χ} {id : Nat} {r : Request Kind Asked}

theorem setState_running (s : DetailStore τ ν χ) (patch : DetailGlueState τ ν χ → DetailGlueState τ ν χ)
    (running : s.disposed = false) : setState s patch = {s with state := patch s.state} := by
  rw [setState,if_neg (by simp [running])]

theorem Owned.same (owned : Owned s) {t : DetailStore τ ν χ} (disposed : t.disposed = s.disposed) (requests : t.requests = s.requests)
    (busy : ∀ k, busy t k = busy s k) (generation : t.timelineGeneration = s.timelineGeneration)
    (slot : t.detailInFlight = s.detailInFlight) (queued : t.detailQueued = s.detailQueued)
    (detail : t.detailGeneration = s.detailGeneration) (notified : t.notified = s.notified) : Owned t := by
  refine ⟨disposed.trans owned.running,?_,?_,?_,?_,?_,?_⟩
  · intro k timeline
    rw [requests,busy,owned.counts k timeline]
  · rw [requests,generation]
    exact owned.current
  · rw [requests,generation]
    exact owned.placed
  · intro listen
    rw [← owned.apart ((busy .listen).symm.trans listen)]
    exact busy .refresh
  · rw [requests,slot,queued,detail,notified]
    exact owned.slot
  · rw [requests]
    exact owned.lineage

theorem Owned.setState (owned : Owned s) (patch : DetailGlueState τ ν χ → DetailGlueState τ ν χ) :
    Owned (setState s patch) := by
  rw [setState_running _ _ owned.running]
  exact owned.same rfl rfl (fun _ => rfl) rfl rfl rfl rfl rfl

theorem Owned.begins (owned : Owned s) : Owned (beginTimelineGeneration s) := by
  refine ⟨owned.running,?_,?_,?_,nofun,?_,?_⟩
  · intro k timeline
    show flying k (abort Kind.timeline s.requests) = _
    rw [flying_abort,if_pos timeline]
    cases k <;> rfl
  · intro k timeline
    exact Fits.none (by rw [beginTimelineGeneration,flying_abort,if_pos timeline])
  · intro r inside timeline
    left
    obtain ⟨old,was,rfl⟩ := List.mem_map.mp inside
    have kept : ∀ x : Request Kind Asked, x = old ∨ x = {old with aborted := true} → x.kind.timeline = true →
        x.asked.generation < s.timelineGeneration + 1 := by
      rintro x (rfl | rfl) timeline <;> rcases owned.placed _ was timeline with less | ⟨same,_⟩
      · exact Nat.lt_succ_of_lt less
      · exact Nat.lt_succ_of_le (Nat.le_of_eq same)
      · exact Nat.lt_succ_of_lt less
      · exact Nat.lt_succ_of_le (Nat.le_of_eq same)
    refine kept _ ?_ timeline
    split
    · exact .inr rfl
    · exact .inl rfl
  · intro id slot
    obtain ⟨r,there,detail,rest⟩ := owned.slot id slot
    exact ⟨r,get_abort there (by rw [detail]; rfl),detail,rest⟩
  · intro r inside lineage
    obtain ⟨old,was,rfl⟩ := List.mem_map.mp inside
    split at lineage
    · rename_i timeline
      rw [show old.kind = .lineage from lineage] at timeline
      cases timeline
    · rename_i timeline
      rw [if_neg timeline]
      exact owned.lineage old was lineage

theorem Owned.starts (owned : Owned s) {t : DetailStore τ ν χ} (k : Kind) (cursor : Option String)
    (idle : busy s k = false) (disposed : t.disposed = false)
    (requests : t.requests = (startRequest s k cursor).requests) (busy' : ∀ j, j.timeline = true → busy t j = (busy s j || decide (k = j)))
    (generation : t.timelineGeneration = s.timelineGeneration) (apart : t.listenInFlight = true → t.refreshInFlight = false)
    (slot : t.detailInFlight = s.detailInFlight ∨ k = .detail ∧ t.detailInFlight = some s.requests.length)
    (queued : t.detailQueued = s.detailQueued) (detail : t.detailGeneration = s.detailGeneration)
    (notified : t.notified = s.notified) : Owned t := by
  refine ⟨disposed,?_,?_,?_,apart,?_,?_⟩
  · intro j timeline
    rw [requests,startRequest,flying_start,owned.counts j timeline,busy' j timeline]
    by_cases same : k = j
    · subst same
      rw [idle]
      simp
    · simp [same]
  · intro j timeline
    rw [requests,generation]
    refine (owned.current j timeline).start fun same => ?_
    subst same
    show (if _ then _ else _) = _
    rw [if_neg]
    rintro rfl
    cases timeline
  · rw [requests,generation]
    intro r inside timeline
    rcases List.mem_append.mp inside with old | new
    · exact owned.placed r old timeline
    · cases List.mem_singleton.mp new
      refine .inr ⟨?_,rfl⟩
      show (if _ then _ else _) = _
      rw [if_neg]
      rintro rfl
      cases timeline
  · intro id there
    rw [requests,queued,detail,notified]
    rcases slot with same | ⟨rfl,last⟩
    · obtain ⟨r,was,rest⟩ := owned.slot id (same ▸ there)
      exact ⟨r,get_start was _ _,rest⟩
    · cases Option.some.inj (last.symm.trans there)
      exact ⟨_,get_start_last _ _,rfl,rfl,nofun,fun _ => ⟨rfl,rfl⟩⟩
  · rw [requests]
    intro r inside lineage
    rcases List.mem_append.mp inside with old | new
    · exact owned.lineage r old lineage
    · cases List.mem_singleton.mp new
      rfl

theorem pending_some (there : pending s id = some r) : s.requests[id]? = some r ∧ r.settled = false := by
  obtain ⟨found,open'⟩ := Option.filter_eq_some_iff.mp there
  exact ⟨found,by simpa using open'⟩

theorem Owned.settles (owned : Owned s) (there : s.requests[id]? = some r) {t : DetailStore τ ν χ} (disposed : t.disposed = false)
    (requests : t.requests = settle id s.requests) (busy' : ∀ j, j.timeline = true → busy t j = (busy s j && !r.flies j))
    (generation : t.timelineGeneration = s.timelineGeneration) (apart : t.listenInFlight = true → t.refreshInFlight = false)
    (slot : ∀ i, t.detailInFlight = some i → s.detailInFlight = some i ∧ i ≠ id) (queued : t.detailQueued = s.detailQueued)
    (detail : t.detailGeneration = s.detailGeneration) (notified : t.notified = s.notified) : Owned t := by
  have kept : ∀ x ∈ settle id s.requests, x ∈ s.requests ∨ x = {r with settled := true} := fun x inside =>
    mem_modify_of_get there inside
  have held := List.mem_of_getElem? there
  refine ⟨disposed,?_,?_,?_,apart,?_,?_⟩
  · intro j timeline
    have count := flying_settle (k := j) there
    rw [owned.counts j timeline] at count
    rw [requests,busy' j timeline]
    cases flies : r.flies j <;> cases under : busy s j <;> simp [flies,under] at count ⊢
    all_goals omega
  · intro j timeline
    rw [requests,generation]
    exact (owned.current j timeline).settle id
  · rw [requests,generation]
    intro x inside timeline
    rcases kept x inside with old | rfl
    · exact owned.placed x old timeline
    · exact owned.placed r held timeline
  · intro i found
    obtain ⟨before,apart⟩ := slot i found
    obtain ⟨x,was,rest⟩ := owned.slot i before
    rw [requests,queued,detail,notified]
    exact ⟨x,(get_modify_other (Ne.symm apart)).trans was,rest⟩
  · rw [requests]
    intro x inside lineage
    rcases kept x inside with old | rfl
    · exact owned.lineage x old lineage
    · exact owned.lineage r held lineage

-- A request that has not settled is of the current generation exactly if nothing has aborted it.
theorem Owned.landed (owned : Owned s) (there : pending s id = some r) (timeline : r.kind.timeline = true) :
    r.asked.generation = s.timelineGeneration ↔ r.flies r.kind = true := by
  obtain ⟨found,unsettled⟩ := pending_some there
  have held := List.mem_of_getElem? found
  constructor
  · intro same
    rcases owned.placed r held timeline with less | ⟨_,sound⟩
    · omega
    · exact flies_iff.mpr ⟨rfl,sound,unsettled⟩
  · exact owned.current r.kind timeline r held

theorem flies_other {j : Kind} (apart : r.kind ≠ j) : r.flies j = false := by simp [Request.flies,apart]

theorem Owned.current_iff (owned : Owned s) (there : pending s id = some r) (timeline : r.kind.timeline = true) :
    isCurrentTimelineRequest s r = true ↔ r.flies r.kind = true := by
  rw [← owned.landed there timeline,isCurrentTimelineRequest,owned.running]
  simp only [Bool.not_false,Bool.true_and,Bool.and_eq_true,Bool.not_eq_true',decide_eq_true_eq]
  refine ⟨And.right,fun same => ⟨?_,same⟩⟩
  exact (flies_iff.mp ((owned.landed there timeline).mp same)).2.1

theorem Owned.regenerates (owned : Owned s) (idle : s.detailInFlight = none) (generation notified : Nat) (queued : Bool) :
    Owned {s with detailGeneration := generation,notified := notified,detailQueued := queued} :=
  ⟨owned.running,owned.counts,owned.current,owned.placed,owned.apart,
    fun id there => (nomatch idle.symm.trans (show s.detailInFlight = some id from there)),owned.lineage⟩

theorem Owned.startsDetail (owned : Owned s) (idle : s.detailInFlight = none) : Owned (startDetailRefresh s) :=
  owned.starts .detail none rfl owned.running rfl (fun j timeline => by cases j <;> simp_all [Kind.timeline,busy,startDetailRefresh,startRequest])
    rfl owned.apart (.inr ⟨rfl,rfl⟩) rfl rfl rfl

theorem Owned.abortsDetail (owned : Owned s) (there : s.detailInFlight = some id) (generation notified : Nat) :
    Owned {s with requests := abortAt id s.requests,detailQueued := true,detailGeneration := generation,notified := notified} := by
  obtain ⟨r,found,detail,unsettled,_⟩ := owned.slot id there
  have kept : ∀ x ∈ abortAt id s.requests, x ∈ s.requests ∨ x = {r with aborted := true} := fun x inside =>
    mem_modify_of_get found inside
  refine ⟨owned.running,?_,?_,?_,owned.apart,?_,?_⟩
  · intro j timeline
    have count := flying_abortAt (k := j) found
    rw [flies_other (by rw [detail]; rintro rfl; cases timeline)] at count
    exact count.trans (owned.counts j timeline)
  · intro j timeline
    exact (owned.current j timeline).abortAt id
  · intro x inside timeline
    rcases kept x inside with old | rfl
    · exact owned.placed x old timeline
    · rw [show ({r with aborted := true} : Request Kind Asked).kind = .detail from detail] at timeline
      cases timeline
  · intro i same
    cases Option.some.inj (there.symm.trans same)
    exact ⟨_,get_modify found,detail,unsettled,fun _ => rfl,nofun⟩
  · intro x inside lineage
    rcases kept x inside with old | rfl
    · exact owned.lineage x old lineage
    · cases detail.symm.trans lineage

theorem Shown.patches (shown : Shown s) (running : s.disposed = false) {patch : DetailGlueState τ ν χ → DetailGlueState τ ν χ}
    (ready : (patch s.state).ready = s.state.ready) (loading : (patch s.state).loading = true → s.state.loading = true)
    (refreshing : (patch s.state).refreshing = true → s.state.refreshing = true) : Shown (setState s patch) := by
  rw [setState_running _ _ running]
  refine ⟨fun begun => shown.begun (begun.imp_left fun now => ready.symm.trans now),fun busy => ready.trans (shown.ready busy),
    fun loads => ?_,fun now => shown.refreshing (refreshing now)⟩
  show _ ∨ (patch s.state).ready = false ∧ _
  rw [ready]
  exact shown.loading (loading loads)

def LiveStore (s : DetailStore τ ν χ) : Prop := Owned s ∧ Shown s

theorem LiveStore.sets {patch : DetailGlueState τ ν χ → DetailGlueState τ ν χ} (running : s.disposed = false)
    (live : LiveStore {s with state := patch s.state}) : LiveStore (setState s patch) := by
  rw [setState_running _ _ running]
  exact live

theorem newStore_live (hint : Option DetailHeaderHint) : LiveStore (newStore l hint : DetailStore τ ν χ) := by
  refine ⟨⟨rfl,?_,fun _ _ => nofun,nofun,nofun,nofun,nofun⟩,⟨?_,?_,nofun,nofun⟩⟩
  · intro k timeline
    cases k <;> rfl
  · rintro (ready | slot)
    · cases ready
    · cases slot
  · rintro (paging | listen | refresh)
    · cases paging
    · cases listen
    · cases refresh

theorem openStore_live (live : LiveStore s) : LiveStore (openStore s) := by
  obtain ⟨owned,shown⟩ := live
  unfold openStore
  split
  · exact ⟨owned,shown⟩
  rename_i fresh
  have unopened : s.opened = false := by
    simp only [owned.running,Bool.or_false] at fresh
    exact Bool.not_eq_true _ ▸ fresh
  have idle : s.detailInFlight = none := by
    cases slot : s.detailInFlight with
    | none => rfl
    | some id => cases unopened.symm.trans (shown.begun (.inr (by rw [slot]; rfl)))
  have unready : s.state.ready = false := by
    cases ready : s.state.ready with
    | false => rfl
    | true => cases unopened.symm.trans (shown.begun (.inl ready))
  have first : Owned {s with opened := true} := owned.same rfl rfl (fun _ => rfl) rfl rfl rfl rfl rfl
  have second := first.begins.regenerates idle (s.detailGeneration + 1) s.notified s.detailQueued
  have running : s.disposed = false := owned.running
  simp only
  rw [setState_running]
  · refine ⟨Owned.startsDetail (second.same rfl rfl (fun _ => rfl) rfl rfl rfl rfl rfl) idle,?_⟩
    refine ⟨fun _ => rfl,nofun,fun _ => .inr ⟨unready,rfl⟩,fun refreshing => ?_⟩
    have busy := shown.ready (.inr (.inr (shown.refreshing refreshing)))
    cases unready.symm.trans busy
  · exact owned.running

theorem loadMore_live (live : LiveStore s) : LiveStore (loadMore l s) := by
  obtain ⟨owned,shown⟩ := live
  unfold loadMore
  split
  · exact ⟨owned,shown⟩
  rename_i free
  simp only [Bool.or_eq_true,not_or,Bool.not_eq_true,Bool.not_eq_true',Bool.not_eq_false] at free
  obtain ⟨⟨⟨_,idle⟩,calm⟩,ready⟩ := free
  split
  · exact ⟨owned,shown⟩
  · rename_i cursor _
    refine .sets owned.running ⟨owned.starts .page (some cursor) idle owned.running rfl ?_ rfl owned.apart (.inl rfl) rfl rfl rfl,?_⟩
    · intro j timeline
      cases j <;> simp_all [busy,startRequest,Kind.timeline]
    · exact ⟨shown.begun,fun _ => ready,fun _ => .inl rfl,shown.refreshing⟩

theorem scheduleListenRefetch_live (live : LiveStore s) : LiveStore (scheduleListenRefetch s) := by
  obtain ⟨owned,shown⟩ := live
  unfold scheduleListenRefetch
  split
  · exact ⟨owned,shown⟩
  rename_i free
  simp only [Bool.or_eq_true,not_or,Bool.not_eq_true,Bool.not_eq_true',Bool.not_eq_false] at free
  obtain ⟨⟨_,ready⟩,calm⟩ := free
  split
  · refine ⟨owned.same rfl rfl (fun k => by cases k <;> rfl) rfl rfl rfl rfl rfl,?_⟩
    exact ⟨shown.begun,shown.ready,shown.loading,shown.refreshing⟩
  · rename_i idle
    have idle : s.listenInFlight = false := Bool.not_eq_true _ ▸ idle
    refine ⟨owned.starts .listen none idle owned.running rfl ?_ rfl (fun _ => calm) (.inl rfl) rfl rfl rfl,?_⟩
    · intro j timeline
      cases j <;> simp_all [busy,startRequest,Kind.timeline]
    · exact ⟨shown.begun,fun _ => ready,shown.loading,shown.refreshing⟩

theorem toggleListen_live (live : LiveStore s) : LiveStore (toggleListen s) := by
  have flipped : LiveStore (setState s fun v => {v with listening := !s.state.listening}) :=
    ⟨live.1.setState _,live.2.patches live.1.running rfl id id⟩
  unfold toggleListen
  simp only
  split
  · exact scheduleListenRefetch_live flipped
  · exact flipped

theorem refreshNewest_live (live : LiveStore s) : LiveStore (refreshNewest s) := by
  obtain ⟨owned,shown⟩ := live
  unfold refreshNewest
  split
  · exact ⟨owned,shown⟩
  rename_i free
  simp only [Bool.or_eq_true,not_or,Bool.not_eq_true,Bool.not_eq_true',Bool.not_eq_false] at free
  obtain ⟨_,ready⟩ := free
  simp only
  refine .sets owned.running ⟨owned.begins.starts .refresh none rfl owned.running rfl ?_ rfl nofun (.inl rfl) rfl rfl rfl,?_⟩
  · intro j timeline
    cases j <;> simp_all [busy,startRequest,beginTimelineGeneration,Kind.timeline]
  · exact ⟨shown.begun,fun _ => ready,nofun,fun _ => rfl⟩

theorem scheduleDetailRefresh_live (live : LiveStore s) {t : DetailStore τ ν χ} (same : t = {s with
      state := t.state
      notified := t.notified
      failed := t.failed}) (shown : Shown t) : LiveStore (scheduleDetailRefresh t) := by
  obtain ⟨owned,before⟩ := live
  rw [same] at shown ⊢
  unfold scheduleDetailRefresh
  split
  · rename_i idle
    have unopened : s.opened = false := by simpa [owned.running] using idle
    have none' : s.detailInFlight = none := by
      cases slot : s.detailInFlight with
      | none => rfl
      | some id => cases unopened.symm.trans (before.begun (.inr (by rw [slot]; rfl)))
    exact ⟨(owned.regenerates none' s.detailGeneration t.notified s.detailQueued).same rfl rfl (fun k => by cases k <;> rfl) rfl rfl rfl rfl rfl,shown⟩
  · rename_i opened
    have opened : s.opened = true := by simpa [owned.running] using opened
    simp only
    split
    · rename_i id slot
      refine ⟨(owned.abortsDetail slot (s.detailGeneration + 1) t.notified).same rfl rfl (fun k => by cases k <;> rfl) rfl rfl rfl rfl rfl,?_⟩
      exact ⟨shown.begun,shown.ready,shown.loading,shown.refreshing⟩
    · rename_i slot
      refine ⟨?_,?_⟩
      · exact Owned.startsDetail ((owned.regenerates slot (s.detailGeneration + 1) t.notified s.detailQueued).same rfl rfl
          (fun k => by cases k <;> rfl) rfl rfl rfl rfl rfl) slot
      · refine ⟨fun _ => opened,shown.ready,fun loads => ?_,shown.refreshing⟩
        exact (shown.loading loads).imp_right fun ⟨unready,_⟩ => ⟨unready,rfl⟩

theorem notifySnapshot_live (live : LiveStore s) (card : Option DetailHeaderHint) : LiveStore (notifySnapshot s card) := by
  have told : Shown {s with notified := s.notified + 1,failed := false} :=
    ⟨live.2.begun,live.2.ready,live.2.loading,live.2.refreshing⟩
  have scheduled : ∀ t : DetailStore τ ν χ, LiveStore (scheduleDetailRefresh t) →
      LiveStore (if (scheduleDetailRefresh t).state.listening && (scheduleDetailRefresh t).state.ready then
        scheduleListenRefetch (scheduleDetailRefresh t) else scheduleDetailRefresh t) := by
    intro t ready
    split
    · exact scheduleListenRefetch_live ready
    · exact ready
  unfold notifySnapshot
  simp only
  rw [if_neg (by simp [live.1.running])]
  apply scheduled
  cases card with
  | none => exact scheduleDetailRefresh_live live rfl told
  | some card =>
    refine scheduleDetailRefresh_live live ?_ (told.patches live.1.running rfl id id)
    dsimp only
    rw [setState_running]
    exact live.1.running

theorem loadLineage_live (live : LiveStore s) (agent : String) : LiveStore (loadLineage l s agent) := by
  obtain ⟨owned,shown⟩ := live
  have started : LiveStore {s with lineageStarted := true} :=
    ⟨owned.same rfl rfl (fun k => by cases k <;> rfl) rfl rfl rfl rfl rfl,⟨shown.begun,shown.ready,shown.loading,shown.refreshing⟩⟩
  unfold loadLineage
  split
  · exact ⟨owned,shown⟩
  simp only
  split
  · exact ⟨started.1.setState _,started.2.patches started.1.running rfl id id⟩
  split
  · exact ⟨started.1.setState _,started.2.patches started.1.running rfl id id⟩
  · refine ⟨started.1.starts .lineage none rfl owned.running rfl ?_ rfl owned.apart (.inl rfl) rfl rfl rfl,?_⟩
    · intro j timeline
      cases j <;> simp_all [busy,startRequest,Kind.timeline]
    · exact ⟨shown.begun,shown.ready,shown.loading,shown.refreshing⟩

theorem LiveStore.quiets (live : LiveStore s) {patch : DetailGlueState τ ν χ → DetailGlueState τ ν χ} (window : Option Nat)
    (ready : s.state.ready = true → (patch s.state).ready = true) (opened : s.opened = true)
    (loading : (patch s.state).loading = true → s.paging = true)
    (refreshing : (patch s.state).refreshing = true → s.state.refreshing = true) :
    LiveStore (setState {s with window := window} patch) := by
  obtain ⟨owned,shown⟩ := live
  refine .sets owned.running ⟨owned.same rfl rfl (fun k => by cases k <;> rfl) rfl rfl rfl rfl rfl,?_⟩
  exact ⟨fun _ => opened,fun busy => ready (shown.ready busy),fun loads => .inl (loading loads),fun now => shown.refreshing (refreshing now)⟩

theorem loadLineage_frame (s : DetailStore τ ν χ) (agent : String) :
    (loadLineage l s agent).state.loading = s.state.loading ∧ (loadLineage l s agent).paging = s.paging ∧
    (loadLineage l s agent).detailInFlight = s.detailInFlight ∧ (loadLineage l s agent).detailQueued = s.detailQueued ∧
      ∀ (i : Nat) x, s.requests[i]? = some x → (loadLineage l s agent).requests[i]? = some x := by
  unfold loadLineage setState
  split
  · exact ⟨rfl,rfl,rfl,rfl,fun _ _ => id⟩
  simp only
  split
  · split <;> exact ⟨rfl,rfl,rfl,rfl,fun _ _ => id⟩
  split
  · split <;> exact ⟨rfl,rfl,rfl,rfl,fun _ _ => id⟩
  · exact ⟨rfl,rfl,rfl,rfl,fun _ _ there => get_start there _ _⟩

-- What the answer to the detail in flight leaves: nothing of that kind is said to load any more.
structure Heard (s t : DetailStore τ ν χ) : Prop where
  live : LiveStore t
  quiet : t.state.loading = true → t.paging = true
  slot : t.detailInFlight = s.detailInFlight
  queued : t.detailQueued = s.detailQueued
  requests : ∀ (i : Nat) x, s.requests[i]? = some x → t.requests[i]? = some x

theorem Heard.loadLineage {t : DetailStore τ ν χ} (heard : Heard s t) (agent : String) : Heard s (loadLineage l t agent) := by
  obtain ⟨loading,paging,slot,queued,requests⟩ := loadLineage_frame (l := l) t agent
  refine ⟨loadLineage_live heard.live agent,fun loads => ?_,slot.trans heard.slot,queued.trans heard.queued,
    fun i x there => requests i x (heard.requests i x there)⟩
  rw [paging]
  exact heard.quiet (loading.symm.trans loads)

theorem LiveStore.heard (live : LiveStore s) {patch : DetailGlueState τ ν χ → DetailGlueState τ ν χ} (window : Option Nat)
    (ready : s.state.ready = true → (patch s.state).ready = true) (opened : s.opened = true)
    (loading : (patch s.state).loading = true → s.paging = true)
    (refreshing : (patch s.state).refreshing = true → s.state.refreshing = true) :
    Heard s (setState {s with window := window} patch) := by
  have running : ({s with window := window} : DetailStore τ ν χ).disposed = false := live.1.running
  refine ⟨live.quiets window ready opened loading refreshing,?_,?_,?_,?_⟩ <;> rw [setState_running _ _ running]
  · exact loading
  · exact fun _ _ => id

theorem LiveStore.idle (live : LiveStore s) (ready : s.state.ready = true) (loads : s.state.loading = true) : s.paging = true :=
  (live.2.loading loads).resolve_right fun unready => by cases ready.symm.trans unready.1

theorem detailArrives_heard (live : LiveStore s) (there : s.detailInFlight = some id) (wire : ω) : Heard s (detailArrives l s r wire) := by
  have opened : s.opened = true := live.2.begun (.inr (by rw [there]; rfl))
  unfold detailArrives
  simp only
  split
  · rename_i ready
    refine Heard.loadLineage ?_ _
    exact live.heard s.window (fun _ => ready) opened (live.idle ready) fun now => now
  split
  · refine Heard.loadLineage ?_ _
    exact live.heard s.window (fun ready => ready) opened nofun fun now => now
  split
  · refine Heard.loadLineage ?_ _
    exact live.heard s.window (fun ready => ready) opened nofun fun now => now
  · refine Heard.loadLineage ?_ _
    exact live.heard _ (fun _ => rfl) opened nofun fun now => now

theorem detailFails_heard (live : LiveStore s) (there : s.detailInFlight = some id) (reason : String) :
    Heard s (detailFails l s reason) := by
  have opened : s.opened = true := live.2.begun (.inr (by rw [there]; rfl))
  unfold detailFails
  split
  · rename_i ready
    exact ⟨live,live.idle ready,rfl,rfl,fun _ _ there => there⟩
  · refine Heard.loadLineage ?_ _
    exact live.heard s.window (fun ready => ready) opened nofun fun now => now

theorem detailSettles_live (live : LiveStore s) (there : pending s id = some r) (detail : r.kind = .detail)
    (result : Except String ω) : LiveStore (detailSettles l s id r result) := by
  obtain ⟨found,unsettled⟩ := pending_some there
  have apart : ∀ j, j.timeline = true → r.flies j = false := fun j timeline =>
    flies_other (by rw [detail]; rintro rfl; cases timeline)
  -- the request leaves the slot, and its successor, if one is queued, takes it
  have ends : ∀ t : DetailStore τ ν χ, LiveStore t → t.requests[id]? = some r → (t.detailInFlight = some id →
      (t.state.loading = true → t.paging = true) ∨ t.detailQueued = true) →
      LiveStore (let t := finishRequest t id
        if t.detailInFlight ≠ some id then t
        else
          let t := {t with detailInFlight := none}
          if t.detailQueued && !t.disposed then startDetailRefresh {t with detailQueued := false} else t) := by
    rintro t ⟨owned,shown⟩ still leaves
    have gone : ∀ u : DetailStore τ ν χ, u = {finishRequest t id with detailInFlight := u.detailInFlight} →
        (∀ i, u.detailInFlight = some i → t.detailInFlight = some i ∧ i ≠ id) → Owned u := by
      intro u same slot
      rw [same]
      exact owned.settles still owned.running rfl (fun j timeline => by cases j <;> simp [busy,finishRequest,apart _ timeline])
        rfl owned.apart slot rfl rfl rfl
    simp only
    split
    · rename_i other
      exact ⟨gone _ rfl fun i same => ⟨same,fun equal => other (equal ▸ same)⟩,⟨shown.begun,shown.ready,shown.loading,shown.refreshing⟩⟩
    · rename_i slot
      have slot : t.detailInFlight = some id := not_not.mp slot
      have cleared : Owned {finishRequest t id with detailInFlight := none} :=
        gone _ rfl fun i same => by cases same
      have opened : t.opened = true := shown.begun (.inr (by rw [slot]; rfl))
      split
      · have fresh := cleared.regenerates rfl t.detailGeneration t.notified false
        refine ⟨fresh.startsDetail rfl,⟨fun _ => opened,shown.ready,fun loads => ?_,shown.refreshing⟩⟩
        exact (shown.loading loads).imp_right fun waits => ⟨waits.1,rfl⟩
      · rename_i unqueued
        refine ⟨cleared,⟨fun _ => opened,shown.ready,fun loads => .inl ?_,shown.refreshing⟩⟩
        rcases leaves slot with quiet | queued
        · exact quiet loads
        · have both : (t.detailQueued && !t.disposed) = true := by rw [queued,owned.running]; rfl
          exact absurd both unqueued
  unfold detailSettles
  by_cases current : isCurrentDetailRequest s id r = true
  · have slot : s.detailInFlight = some id := by
      simp only [isCurrentDetailRequest,Bool.and_eq_true,decide_eq_true_eq] at current
      exact current.2
    rw [if_pos current]
    have heard : Heard s (match result with
        | .ok wire => detailArrives l s r wire
        | .error reason => detailFails l s reason) := by
      cases result with
      | ok wire => exact detailArrives_heard live slot wire
      | error reason => exact detailFails_heard live slot reason
    exact ends _ heard.live (heard.requests id r found) fun _ => .inl heard.quiet
  · rw [if_neg current]
    refine ends s live found fun slot => .inr ?_
    obtain ⟨x,same,_,_,queued,fresh⟩ := live.1.slot id slot
    cases Option.some.inj (found.symm.trans same)
    cases aborted : r.aborted with
    | true => exact queued aborted
    | false => exact absurd (by simp [isCurrentDetailRequest,live.1.running,aborted,(fresh aborted).1,slot]) current

theorem Owned.finishes (owned : Owned s) (found : s.requests[id]? = some r) (timeline : r.kind.timeline = true)
    {t : DetailStore τ ν χ} (same : t = {finishRequest s id with
      paging := t.paging
      listenInFlight := t.listenInFlight
      listenQueued := t.listenQueued
      refreshInFlight := t.refreshInFlight})
    (busy' : ∀ j, j.timeline = true → busy t j = (busy s j && !r.flies j))
    (apart : t.listenInFlight = true → t.refreshInFlight = false) : Owned t := by
  have elsewhere : ∀ i, s.detailInFlight = some i → i ≠ id := by
    rintro i slot rfl
    obtain ⟨x,there,detail,_⟩ := owned.slot i slot
    cases Option.some.inj (found.symm.trans there)
    rw [detail] at timeline
    cases timeline
  refine owned.settles found ?_ ?_ busy' ?_ apart ?_ ?_ ?_ ?_
  all_goals rw [same]
  · exact owned.running
  · rfl
  · rfl
  · exact fun i slot => ⟨slot,elsewhere i slot⟩
  · rfl
  · rfl
  · rfl

theorem flies_kind (other : r.flies r.kind = false) (j : Kind) : r.flies j = false := by
  by_cases same : r.kind = j
  · rw [← same,other]
  · exact flies_other same

theorem LiveStore.noted (live : LiveStore s) (state : DetailGlueState τ ν χ) (window : Option Nat) (failed : Bool)
    (ready : state.ready = s.state.ready) (loading : state.loading = true → s.state.loading = true)
    (refreshing : state.refreshing = true → s.state.refreshing = true) :
    LiveStore {s with state := state,window := window,failed := failed} := by
  have shown : Shown (setState s fun _ => state) := live.2.patches live.1.running ready loading refreshing
  rw [setState_running _ _ live.1.running] at shown
  exact ⟨live.1.same rfl rfl (fun k => by cases k <;> rfl) rfl rfl rfl rfl rfl,⟨shown.begun,shown.ready,shown.loading,shown.refreshing⟩⟩

theorem Owned.stale (owned : Owned s) (there : pending s id = some r) (timeline : r.kind.timeline = true)
    (flies : r.flies r.kind = false) : isCurrentTimelineRequest s r = false ∧ ¬ r.asked.generation = s.timelineGeneration := by
  refine ⟨?_,fun same => by cases flies.symm.trans ((owned.landed there timeline).mp same)⟩
  cases current : isCurrentTimelineRequest s r with
  | false => rfl
  | true => cases flies.symm.trans ((owned.current_iff there timeline).mp current)

theorem pageSettles_stale (stale : isCurrentTimelineRequest s r = false ∧ ¬ r.asked.generation = s.timelineGeneration)
    (result : Except String π) : pageSettles l s id r result = finishRequest s id := by
  simp only [pageSettles,stale.1,Bool.false_eq_true,if_false,finishRequest,if_neg stale.2]

theorem refreshSettles_stale (stale : isCurrentTimelineRequest s r = false ∧ ¬ r.asked.generation = s.timelineGeneration)
    (result : Except String π) : refreshSettles l s id r result = finishRequest s id := by
  simp only [refreshSettles,stale.1,Bool.false_eq_true,if_false,finishRequest,if_neg stale.2]

theorem listenSettles_stale (stale : isCurrentTimelineRequest s r = false ∧ ¬ r.asked.generation = s.timelineGeneration)
    (result : Except String π) : listenSettles l s id r result = finishRequest s id := by
  simp [listenSettles,stale.1,finishRequest,stale.2]

theorem pageSettles_current (running : s.disposed = false) (current : isCurrentTimelineRequest s r = true)
    (same : r.asked.generation = s.timelineGeneration) (result : Except String π) : ∃ state : DetailGlueState τ ν χ,
    state.loading = false ∧ state.ready = s.state.ready ∧ state.refreshing = s.state.refreshing ∧
    state.listening = s.state.listening ∧
    pageSettles l s id r result = {s with state := state,requests := settle id s.requests,paging := false} := by
  cases result with
  | ok page =>
    refine ⟨(pageArrives l s page).state,?_⟩
    simp [pageSettles,current,pageArrives,setState,running,finishRequest,same]
  | error reason =>
    refine ⟨{s.state with loading := false,error := some reason},?_⟩
    simp [pageSettles,current,setState,running,finishRequest,same]

theorem refreshSettles_current (running : s.disposed = false) (current : isCurrentTimelineRequest s r = true)
    (same : r.asked.generation = s.timelineGeneration) (result : Except String π) :
    ∃ (state : DetailGlueState τ ν χ) (window : Option Nat) (failed : Bool),
    state.refreshing = false ∧ state.ready = s.state.ready ∧ state.loading = s.state.loading ∧ state.listening = s.state.listening ∧
    (window = some r.asked.since ∨ window = s.window ∧ failed = true) ∧ refreshSettles l s id r result =
      {s with state := state,requests := settle id s.requests,refreshInFlight := false,window := window,failed := failed} := by
  cases result with
  | ok page =>
    refine ⟨{(windowArrives l s true r page).state with refreshing := false},some r.asked.since,s.failed,?_⟩
    simp [refreshSettles,current,windowArrives,setState,running,finishRequest,same]
  | error reason =>
    refine ⟨{s.state with refreshing := false,error := some reason},s.window,true,?_⟩
    simp [refreshSettles,current,setState,running,finishRequest,same]

theorem listenSettles_current (running : s.disposed = false) (current : isCurrentTimelineRequest s r = true)
    (same : r.asked.generation = s.timelineGeneration) (result : Except String π) :
    ∃ (state : DetailGlueState τ ν χ) (window : Option Nat) (failed : Bool),
    state.refreshing = s.state.refreshing ∧ state.ready = s.state.ready ∧ state.loading = s.state.loading ∧
    state.listening = s.state.listening ∧ (window = some r.asked.since ∨ window = s.window ∧ failed = true) ∧
    listenSettles l s id r result =
      let t := {s with state := state,requests := settle id s.requests,listenInFlight := false,window := window,failed := failed}
      if s.listenQueued then scheduleListenRefetch {t with listenQueued := false} else t := by
  cases result with
  | ok page =>
    refine ⟨(windowArrives l s false r page).state,some r.asked.since,s.failed,?_⟩
    simp [listenSettles,current,windowArrives,setState,running,finishRequest,same]
  | error reason =>
    refine ⟨s.state,s.window,true,?_⟩
    simp [listenSettles,current,running,finishRequest,same]

theorem finishRequest_stale (live : LiveStore s) (found : s.requests[id]? = some r) (timeline : r.kind.timeline = true)
    (stale : r.flies r.kind = false) : LiveStore (finishRequest s id) :=
  ⟨live.1.finishes found timeline rfl (fun j _ => by rw [flies_kind stale j]; cases j <;> simp [busy,finishRequest]) live.1.apart,
    ⟨live.2.begun,live.2.ready,live.2.loading,live.2.refreshing⟩⟩

theorem Owned.fresh (owned : Owned s) (there : pending s id = some r) (timeline : r.kind.timeline = true)
    (flies : r.flies r.kind = true) : isCurrentTimelineRequest s r = true ∧ r.asked.generation = s.timelineGeneration :=
  ⟨(owned.current_iff there timeline).mpr flies,(owned.landed there timeline).mpr flies⟩

theorem pageSettles_live (live : LiveStore s) (there : pending s id = some r) (page : r.kind = .page) (result : Except String π) :
    LiveStore (pageSettles l s id r result) := by
  have found := (pending_some there).1
  have timeline : r.kind.timeline = true := by rw [page]; rfl
  cases flies : r.flies r.kind with
  | false =>
    rw [pageSettles_stale (live.1.stale there timeline flies)]
    exact finishRequest_stale live found timeline flies
  | true =>
    have fresh := live.1.fresh there timeline flies
    obtain ⟨state,quiet,ready,refreshing,_,same⟩ := pageSettles_current live.1.running fresh.1 fresh.2 result
    obtain ⟨owned,shown⟩ := live.noted state s.window s.failed ready (fun loads => by cases quiet.symm.trans loads)
      fun now => refreshing.symm.trans now
    rw [same]
    refine ⟨owned.finishes found timeline rfl (fun j timeline => ?_) owned.apart,?_⟩
    · rw [page] at flies
      cases j <;> simp_all [busy,Kind.timeline,Request.flies]
    · exact ⟨shown.begun,fun busy => shown.ready (busy.imp_left fun now => by cases now),fun loads => (by cases quiet.symm.trans loads),
        shown.refreshing⟩

theorem refreshSettles_live (live : LiveStore s) (there : pending s id = some r) (refresh : r.kind = .refresh)
    (result : Except String π) : LiveStore (refreshSettles l s id r result) := by
  have found := (pending_some there).1
  have timeline : r.kind.timeline = true := by rw [refresh]; rfl
  cases flies : r.flies r.kind with
  | false =>
    rw [refreshSettles_stale (live.1.stale there timeline flies)]
    exact finishRequest_stale live found timeline flies
  | true =>
    have fresh := live.1.fresh there timeline flies
    obtain ⟨state,window,failed,quiet,ready,loading,_,_,same⟩ := refreshSettles_current live.1.running fresh.1 fresh.2 result
    obtain ⟨owned,shown⟩ := live.noted state window failed ready (fun loads => loading.symm.trans loads)
      fun now => by cases quiet.symm.trans now
    rw [same]
    refine ⟨owned.finishes found timeline rfl (fun j timeline => ?_) fun _ => rfl,?_⟩
    · rw [refresh] at flies
      cases j <;> simp_all [busy,Kind.timeline,Request.flies]
    · exact ⟨shown.begun,fun busy => shown.ready (busy.imp_right fun late => late.imp_right fun now => by cases now),shown.loading,
        fun now => by cases quiet.symm.trans now⟩

theorem listenSettles_live (live : LiveStore s) (there : pending s id = some r) (listen : r.kind = .listen)
    (result : Except String π) : LiveStore (listenSettles l s id r result) := by
  have found := (pending_some there).1
  have timeline : r.kind.timeline = true := by rw [listen]; rfl
  cases flies : r.flies r.kind with
  | false =>
    rw [listenSettles_stale (live.1.stale there timeline flies)]
    exact finishRequest_stale live found timeline flies
  | true =>
    have fresh := live.1.fresh there timeline flies
    obtain ⟨state,window,failed,refreshing,ready,loading,_,_,same⟩ := listenSettles_current live.1.running fresh.1 fresh.2 result
    obtain ⟨owned,shown⟩ := live.noted state window failed ready (fun loads => loading.symm.trans loads)
      fun now => refreshing.symm.trans now
    have ended : ∀ queued, LiveStore {s with
        state := state
        requests := settle id s.requests
        listenInFlight := false
        window := window
        failed := failed
        listenQueued := queued} := by
      intro queued
      refine ⟨owned.finishes found timeline rfl (fun j timeline => ?_) nofun,?_⟩
      · rw [listen] at flies
        cases j <;> simp_all [busy,Kind.timeline,Request.flies]
      · exact ⟨shown.begun,fun busy => shown.ready (busy.imp_right fun late => late.imp_left nofun),shown.loading,shown.refreshing⟩
    rw [same]
    simp only
    split
    · exact scheduleListenRefetch_live (ended false)
    · exact ended s.listenQueued

theorem lineageSettles_live (live : LiveStore s) (there : pending s id = some r) (lineage : r.kind = .lineage)
    (result : Except String (LineageBody χ)) : LiveStore (lineageSettles s id r result) := by
  have found := (pending_some there).1
  have apart : ∀ j, j.timeline = true → r.flies j = false := fun j timeline =>
    flies_other (by rw [lineage]; rintro rfl; cases timeline)
  have ended : LiveStore (finishRequest s id) := by
    refine ⟨live.1.settles found live.1.running rfl (fun j timeline => ?_) rfl live.1.apart (fun i slot => ⟨slot,?_⟩) rfl rfl rfl,?_⟩
    · rw [apart j timeline]
      cases j <;> simp [busy,finishRequest]
    · rintro rfl
      obtain ⟨x,same,detail,_⟩ := live.1.slot i slot
      cases Option.some.inj (found.symm.trans same)
      cases detail.symm.trans lineage
    · exact ⟨live.2.begun,live.2.ready,live.2.loading,live.2.refreshing⟩
  unfold lineageSettles
  cases result with
  | ok body =>
    simp only
    split
    · exact ended
    · exact ⟨ended.1.setState _,ended.2.patches ended.1.running rfl (fun loads => loads) fun now => now⟩
  | error reason =>
    simp only
    split
    · exact ended
    · exact ⟨ended.1.setState _,ended.2.patches ended.1.running rfl (fun loads => loads) fun now => now⟩

-- Nothing is under way in a store that is disposed.
structure Dead (s : DetailStore τ ν χ) : Prop where
  disposed : s.disposed = true
  idle : ∀ k, flying k s.requests = 0
  slot : s.detailInFlight = none

def Lives (s : DetailStore τ ν χ) : Prop := LiveStore s ∨ Dead s

theorem dispose_dead (live : LiveStore s) : Dead (dispose s) := by
  unfold dispose
  rw [if_neg (by simp [live.1.running])]
  exact ⟨rfl,fun k => by rw [flying_abort]; rfl,rfl⟩

theorem Dead.setState (dead : Dead s) (patch : DetailGlueState τ ν χ → DetailGlueState τ ν χ) : DetailGlue.setState s patch = s := by
  rw [DetailGlue.setState,if_pos dead.disposed]

theorem Dead.finishes (dead : Dead s) (id : Nat) : Dead (finishRequest s id) := by
  refine ⟨dead.disposed,fun k => ?_,dead.slot⟩
  show flying k (settle id s.requests) = 0
  cases there : s.requests[id]? with
  | some r =>
    have count := flying_settle (k := k) there
    rw [dead.idle k] at count
    omega
  | none =>
    rw [settle,List.modify_eq_self (by simpa using there)]
    exact dead.idle k

theorem advance_dead {event : Event π χ ω} {s' : DetailStore τ ν χ} (dead : Dead s) (stepped : advance l s event = some s') :
    Dead s' ∧ s'.state = s.state := by
  have gone : s.disposed = true := dead.disposed
  have unlisted : scheduleListenRefetch s = s := by rw [scheduleListenRefetch,if_pos (by simp [gone])]
  have uncurrent : ∀ r, isCurrentTimelineRequest s r = false := fun r => by simp [isCurrentTimelineRequest,gone]
  cases event with
  | opens =>
    cases Option.some.inj stepped
    rw [openStore,if_pos (by simp [gone])]
    exact ⟨dead,rfl⟩
  | loadMore =>
    cases Option.some.inj stepped
    rw [loadMore,if_pos (by simp [gone])]
    exact ⟨dead,rfl⟩
  | toggleListen =>
    cases Option.some.inj stepped
    unfold toggleListen
    simp only [dead.setState,unlisted,ite_self]
    exact ⟨dead,trivial⟩
  | refreshNewest =>
    cases Option.some.inj stepped
    rw [refreshNewest,if_pos (by simp [gone])]
    exact ⟨dead,rfl⟩
  | notifySnapshot card =>
    cases Option.some.inj stepped
    unfold notifySnapshot
    simp only [gone,if_true]
    exact ⟨⟨rfl,dead.idle,dead.slot⟩,trivial⟩
  | dispose =>
    cases Option.some.inj stepped
    rw [dispose,if_pos gone]
    exact ⟨dead,rfl⟩
  | detailSettles n result =>
    obtain ⟨r,_,there⟩ := Option.bind_eq_some_iff.mp stepped
    split at there
    · cases Option.some.inj there
      have idle : isCurrentDetailRequest s n r = false := by simp [isCurrentDetailRequest,gone]
      have slot : (finishRequest s n).detailInFlight ≠ some n := by
        rw [show (finishRequest s n).detailInFlight = none from dead.slot]
        simp
      simp only [detailSettles,idle,Bool.false_eq_true,if_false]
      rw [if_pos slot]
      exact ⟨dead.finishes n,rfl⟩
    · cases there
  | windowSettles n result =>
    obtain ⟨r,_,there⟩ := Option.bind_eq_some_iff.mp stepped
    have ended := dead.finishes n
    split at there
    · cases Option.some.inj there
      simp only [pageSettles,uncurrent,Bool.false_eq_true,if_false]
      split
      · exact ⟨⟨ended.disposed,ended.idle,ended.slot⟩,rfl⟩
      · exact ⟨ended,rfl⟩
    · cases Option.some.inj there
      simp only [refreshSettles,uncurrent,Bool.false_eq_true,if_false]
      split
      · exact ⟨⟨ended.disposed,ended.idle,ended.slot⟩,rfl⟩
      · exact ⟨ended,rfl⟩
    · cases Option.some.inj there
      simp only [listenSettles,uncurrent,Bool.false_eq_true,if_false]
      rw [if_pos (by simp [finishRequest,gone])]
      exact ⟨ended,rfl⟩
    · cases there
  | lineageSettles n result =>
    obtain ⟨r,_,there⟩ := Option.bind_eq_some_iff.mp stepped
    split at there
    · cases Option.some.inj there
      have still : (finishRequest s n).disposed = true := gone
      unfold lineageSettles
      cases result <;> simp only [still,Bool.true_or,if_true] <;> exact ⟨dead.finishes n,rfl⟩
    · cases there

theorem advance_live {event : Event π χ ω} {s' : DetailStore τ ν χ} (live : LiveStore s) (stepped : advance l s event = some s') :
    Lives s' := by
  cases event with
  | opens =>
    cases Option.some.inj stepped
    exact .inl (openStore_live live)
  | loadMore =>
    cases Option.some.inj stepped
    exact .inl (loadMore_live live)
  | toggleListen =>
    cases Option.some.inj stepped
    exact .inl (toggleListen_live live)
  | refreshNewest =>
    cases Option.some.inj stepped
    exact .inl (refreshNewest_live live)
  | notifySnapshot card =>
    cases Option.some.inj stepped
    exact .inl (notifySnapshot_live live card)
  | dispose =>
    cases Option.some.inj stepped
    exact .inr (dispose_dead live)
  | detailSettles n result =>
    obtain ⟨r,found,there⟩ := Option.bind_eq_some_iff.mp stepped
    split at there
    · rename_i detail
      cases Option.some.inj there
      exact .inl (detailSettles_live live found detail result)
    · cases there
  | windowSettles n result =>
    obtain ⟨r,found,there⟩ := Option.bind_eq_some_iff.mp stepped
    split at there
    · rename_i page
      cases Option.some.inj there
      exact .inl (pageSettles_live live found page result)
    · rename_i refresh
      cases Option.some.inj there
      exact .inl (refreshSettles_live live found refresh result)
    · rename_i listen
      cases Option.some.inj there
      exact .inl (listenSettles_live live found listen result)
    · cases there
  | lineageSettles n result =>
    obtain ⟨r,found,there⟩ := Option.bind_eq_some_iff.mp stepped
    split at there
    · rename_i lineage
      cases Option.some.inj there
      exact .inl (lineageSettles_live live found lineage result)
    · cases there

theorem advance_lives {event : Event π χ ω} {s' : DetailStore τ ν χ} (lives : Lives s) (stepped : advance l s event = some s') :
    Lives s' := by
  rcases lives with live | dead
  · exact advance_live live stepped
  · exact .inr (advance_dead dead stepped).1

-- A listened store has been, or is being, told what there was at the last snapshot.
structure Fresh (s : DetailStore τ ν χ) : Prop where
  listens : s.state.listening = true → s.listenQueued = true ∨ Fits .listen (fun a => a.since = s.notified) s.requests
  refreshes : s.state.listening = true → Fits .refresh (fun a => a.since = s.notified) s.requests
  window : s.state.listening = true → s.state.ready = true →
    s.window = some s.notified ∨ s.failed = true ∨ s.listenInFlight = true ∨ s.refreshInFlight = true
  unready : s.state.ready = false → s.window = none

theorem Fresh.same (fresh : Fresh s) {t : DetailStore τ ν χ} (listening : t.state.listening = s.state.listening)
    (ready : t.state.ready = s.state.ready) (queued : t.listenQueued = s.listenQueued) (notified : t.notified = s.notified)
    (fits : ∀ k p, k.timeline = true → Fits k p s.requests → Fits k p t.requests) (window : t.window = s.window)
    (failed : t.failed = s.failed) (listen : t.listenInFlight = s.listenInFlight) (refresh : t.refreshInFlight = s.refreshInFlight) :
    Fresh t := by
  refine ⟨?_,?_,?_,?_⟩
  · rw [listening,queued,notified]
    exact fun on => (fresh.listens on).imp_right (fits _ _ rfl)
  · rw [listening,notified]
    exact fun on => fits _ _ rfl (fresh.refreshes on)
  · rw [listening,ready,window,notified,failed,listen,refresh]
    exact fresh.window
  · rw [ready,window]
    exact fresh.unready

theorem Owned.idleFits (owned : Owned s) {k : Kind} (timeline : k.timeline = true) (idle : busy s k = false) (p : Asked → Prop) :
    Fits k p s.requests := Fits.none (by rw [owned.counts k timeline,idle]; rfl)

theorem Shown.unready (shown : Shown s) (unready : s.state.ready = false) : s.paging = false ∧ s.listenInFlight = false ∧
    s.refreshInFlight = false := by
  refine ⟨?_,?_,?_⟩
  · exact Bool.eq_false_iff.mpr fun on => by cases unready.symm.trans (shown.ready (.inl on))
  · exact Bool.eq_false_iff.mpr fun on => by cases unready.symm.trans (shown.ready (.inr (.inl on)))
  · exact Bool.eq_false_iff.mpr fun on => by cases unready.symm.trans (shown.ready (.inr (.inr on)))

theorem scheduleListenRefetch_fresh (live : LiveStore s) (refreshes : Fits .refresh (fun a => a.since = s.notified) s.requests)
    (unready : s.state.ready = false → s.window = none) : Fresh (scheduleListenRefetch s) := by
  obtain ⟨owned,shown⟩ := live
  unfold scheduleListenRefetch
  split
  · rename_i gated
    have cases' : s.state.ready = false ∨ s.refreshInFlight = true := by simpa [owned.running] using gated
    have idle : s.listenInFlight = false := by
      rcases cases' with unready | refresh
      · exact (shown.unready unready).2.1
      · exact Bool.eq_false_iff.mpr fun on => by cases refresh.symm.trans (owned.apart on)
    refine ⟨fun _ => .inr (owned.idleFits (k := .listen) rfl idle _),fun _ => refreshes,fun _ ready => ?_,unready⟩
    rcases cases' with off | refresh
    · cases off.symm.trans ready
    · exact .inr (.inr (.inr refresh))
  split
  · rename_i listen
    exact ⟨fun _ => .inl rfl,fun _ => refreshes,fun _ _ => .inr (.inr (.inl listen)),unready⟩
  · rename_i idle
    have idle : s.listenInFlight = false := Bool.not_eq_true _ ▸ idle
    refine ⟨fun _ => .inr ?_,fun _ => refreshes.start nofun,fun _ _ => .inr (.inr (.inl rfl)),unready⟩
    exact (owned.idleFits (k := .listen) rfl idle _).start fun _ => rfl

theorem newStore_fresh (hint : Option DetailHeaderHint) : Fresh (newStore l hint : DetailStore τ ν χ) :=
  ⟨nofun,nofun,nofun,fun _ => rfl⟩

theorem openStore_fresh (live : LiveStore s) (fresh : Fresh s) : Fresh (openStore s) := by
  have later := openStore_live live
  unfold openStore at later ⊢
  split
  · exact fresh
  rename_i unopened
  rw [if_neg unopened] at later
  have unready : s.state.ready = false := by
    refine Bool.eq_false_iff.mpr fun ready => unopened ?_
    simp [live.2.begun (.inl ready)]
  have running : s.disposed = false := live.1.running
  simp only [setState,beginTimelineGeneration,running,Bool.false_eq_true,if_false] at later ⊢
  exact ⟨fun _ => .inr (later.1.idleFits rfl rfl _),fun _ => later.1.idleFits rfl rfl _,
    fun _ ready => (by cases unready.symm.trans ready),fun _ => fresh.unready unready⟩

theorem loadMore_fresh (live : LiveStore s) (fresh : Fresh s) : Fresh (loadMore l s) := by
  unfold loadMore
  split
  · exact fresh
  split
  · exact fresh
  · have running : s.disposed = false := live.1.running
    simp only [setState,startRequest,running,Bool.false_eq_true,if_false]
    exact ⟨fun on => (fresh.listens on).imp_right fun all => all.start nofun,fun on => (fresh.refreshes on).start nofun,
      fresh.window,fresh.unready⟩

-- A refresh in flight is asked for no sooner than the last snapshot when listen mode is turned on, and no
-- snapshot comes upon one in listen mode.
def ungated (s : DetailStore τ ν χ) (event : Event π χ ω) : Bool :=
  s.disposed || match event with
    | .notifySnapshot _ => !(s.state.listening && s.refreshInFlight)
    | .toggleListen => s.state.listening || s.requests.all fun r => !r.flies .refresh || decide (r.asked.since = s.notified)
    | _ => true

theorem toggleListen_fresh (live : LiveStore s) (fresh : Fresh s) (calm : ungated s (.toggleListen : Event π χ ω) = true) :
    Fresh (toggleListen s) := by
  have running : s.disposed = false := live.1.running
  have flipped : LiveStore (setState s fun v => {v with listening := !s.state.listening}) :=
    ⟨live.1.setState _,live.2.patches running rfl (fun loads => loads) fun now => now⟩
  unfold toggleListen
  simp only [setState_running _ _ running] at flipped ⊢
  split
  · rename_i on
    have off : s.state.listening = false := by simpa using on
    refine scheduleListenRefetch_fresh flipped (fun r inside flies => ?_) fresh.unready
    simp only [ungated,running,off,Bool.false_or,List.all_eq_true,Bool.or_eq_true,Bool.not_eq_true',decide_eq_true_eq] at calm
    exact (calm r inside).resolve_left (by rw [flies]; simp)
  · rename_i off
    exact ⟨fun on => absurd on off,fun on => absurd on off,fun on => absurd on off,fresh.unready⟩

theorem refreshNewest_fresh (live : LiveStore s) (fresh : Fresh s) : Fresh (refreshNewest s) := by
  have running : s.disposed = false := live.1.running
  have later := refreshNewest_live live
  unfold refreshNewest at later ⊢
  split
  · exact fresh
  rename_i free
  rw [if_neg free] at later
  simp only [setState,startRequest,beginTimelineGeneration,running,Bool.false_eq_true,if_false] at later ⊢
  refine ⟨fun _ => .inr (later.1.idleFits rfl rfl _),fun _ => ?_,fun _ _ => .inr (.inr (.inr rfl)),fresh.unready⟩
  have idle : flying Kind.refresh (abort Kind.timeline s.requests) = 0 := by rw [flying_abort]; rfl
  exact (Fits.none idle).start fun _ => rfl

theorem scheduleDetailRefresh_frame (s : DetailStore τ ν χ) : (scheduleDetailRefresh s).state = s.state ∧
    (scheduleDetailRefresh s).refreshInFlight = s.refreshInFlight ∧ (scheduleDetailRefresh s).window = s.window := by
  unfold scheduleDetailRefresh
  split
  · exact ⟨rfl,rfl,rfl⟩
  simp only
  split <;> exact ⟨rfl,rfl,rfl⟩

theorem notifySnapshot_fresh (live : LiveStore s) (fresh : Fresh s) (card : Option DetailHeaderHint)
    (calm : ungated s (.notifySnapshot card : Event π χ ω) = true) : Fresh (notifySnapshot s card) := by
  have running : s.disposed = false := live.1.running
  have told : Shown {s with notified := s.notified + 1,failed := false} :=
    ⟨live.2.begun,live.2.ready,live.2.loading,live.2.refreshing⟩
  have scheduled : ∀ t : DetailStore τ ν χ, LiveStore (scheduleDetailRefresh t) → t.state.listening = s.state.listening →
      t.state.ready = s.state.ready → t.refreshInFlight = s.refreshInFlight → t.window = s.window →
      Fresh (if (scheduleDetailRefresh t).state.listening && (scheduleDetailRefresh t).state.ready then
        scheduleListenRefetch (scheduleDetailRefresh t) else scheduleDetailRefresh t) := by
    intro t later listening ready refresh window
    obtain ⟨state,refreshing,windowed⟩ := scheduleDetailRefresh_frame t
    have unready : (scheduleDetailRefresh t).state.ready = false → (scheduleDetailRefresh t).window = none := by
      rw [state,windowed,ready,window]
      exact fresh.unready
    split
    · rename_i both
      have on : s.state.listening = true := by
        rw [← listening,← state]
        exact (Bool.and_eq_true _ _ ▸ both).1
      have idle : s.refreshInFlight = false := by simpa [ungated,running,on] using calm
      exact scheduleListenRefetch_fresh later (later.1.idleFits (k := .refresh) rfl ((refreshing.trans refresh).trans idle) _) unready
    · rename_i neither
      have off : (scheduleDetailRefresh t).state.listening = true → (scheduleDetailRefresh t).state.ready = false := by
        intro on
        simpa [on] using neither
      refine ⟨fun on => .inr ?_,fun on => ?_,fun on ready => ?_,unready⟩
      · exact later.1.idleFits (k := .listen) rfl (later.2.unready (off on)).2.1 _
      · exact later.1.idleFits (k := .refresh) rfl (later.2.unready (off on)).2.2 _
      · cases (off on).symm.trans ready
  unfold notifySnapshot
  simp only
  rw [if_neg (by simp [running])]
  cases card with
  | none => exact scheduled _ (scheduleDetailRefresh_live live rfl told) rfl rfl rfl rfl
  | some card =>
    have still : ({s with notified := s.notified + 1,failed := false} : DetailStore τ ν χ).disposed = false := running
    have painted := setState_running _ (fun v => {v with header := cardHeader card v.header}) still
    refine scheduled _ (scheduleDetailRefresh_live live ?_ (told.patches running rfl (fun loads => loads) fun now => now)) ?_ ?_ ?_ ?_
    all_goals
      dsimp only
      rw [painted]

theorem loadLineage_fresh (fresh : Fresh s) (agent : String) : Fresh (loadLineage l s agent) := by
  unfold loadLineage setState
  split
  · exact fresh
  simp only
  split
  · split <;> exact fresh.same rfl rfl rfl rfl (fun _ _ _ => id) rfl rfl rfl rfl
  split
  · split <;> exact fresh.same rfl rfl rfl rfl (fun _ _ _ => id) rfl rfl rfl rfl
  · exact fresh.same rfl rfl rfl rfl (fun k p timeline all => all.start fun same => by subst same; cases timeline) rfl rfl rfl rfl

theorem detailArrives_fresh (live : LiveStore s) (fresh : Fresh s) (since : r.asked.since = s.notified) (wire : ω) :
    Fresh (detailArrives l s r wire) := by
  have running : s.disposed = false := live.1.running
  unfold detailArrives
  refine loadLineage_fresh ?_ _
  simp only [setState,running,Bool.false_eq_true,if_false]
  split
  · exact fresh.same rfl rfl rfl rfl (fun _ _ _ all => all) rfl rfl rfl rfl
  split
  · exact fresh.same rfl rfl rfl rfl (fun _ _ _ all => all) rfl rfl rfl rfl
  split
  · exact fresh.same rfl rfl rfl rfl (fun _ _ _ all => all) rfl rfl rfl rfl
  · exact ⟨fresh.listens,fresh.refreshes,fun _ _ => .inl (by rw [since]),nofun⟩

theorem detailFails_fresh (live : LiveStore s) (fresh : Fresh s) (reason : String) : Fresh (detailFails l s reason) := by
  have running : s.disposed = false := live.1.running
  unfold detailFails
  split
  · exact fresh
  · refine loadLineage_fresh ?_ _
    simp only [setState,running,Bool.false_eq_true,if_false]
    exact fresh.same rfl rfl rfl rfl (fun _ _ _ all => all) rfl rfl rfl rfl

theorem detailSettles_fresh (live : LiveStore s) (fresh : Fresh s) (there : pending s id = some r) (result : Except String ω) :
    Fresh (detailSettles l s id r result) := by
  have ends : ∀ t : DetailStore τ ν χ, Fresh t → Fresh (let t := finishRequest t id
      if t.detailInFlight ≠ some id then t
      else
        let t := {t with detailInFlight := none}
        if t.detailQueued && !t.disposed then startDetailRefresh {t with detailQueued := false} else t) := by
    intro t fresh
    have settled : ∀ k p, k.timeline = true → Fits k p t.requests → Fits k p (settle id t.requests) := fun _ _ _ all => all.settle id
    simp only
    split
    · exact fresh.same rfl rfl rfl rfl settled rfl rfl rfl rfl
    split
    · refine fresh.same rfl rfl rfl rfl (fun k p timeline all => ?_) rfl rfl rfl rfl
      exact (settled k p timeline all).start fun same => by subst same; cases timeline
    · exact fresh.same rfl rfl rfl rfl settled rfl rfl rfl rfl
  unfold detailSettles
  apply ends
  split
  · rename_i current
    have slot : s.detailInFlight = some id := by
      simp only [isCurrentDetailRequest,Bool.and_eq_true,decide_eq_true_eq] at current
      exact current.2
    obtain ⟨x,same,_,_,_,told⟩ := live.1.slot id slot
    cases Option.some.inj ((pending_some there).1.symm.trans same)
    have sound : r.aborted = false := by
      simp only [isCurrentDetailRequest,Bool.and_eq_true,Bool.not_eq_true'] at current
      exact current.1.1.2
    cases result with
    | ok wire => exact detailArrives_fresh live fresh (told sound).2 wire
    | error reason => exact detailFails_fresh live fresh reason
  · exact fresh

theorem finishRequest_fresh (fresh : Fresh s) : Fresh (finishRequest s id) :=
  fresh.same rfl rfl rfl rfl (fun _ _ _ all => all.settle id) rfl rfl rfl rfl

theorem pageSettles_fresh (live : LiveStore s) (fresh : Fresh s) (there : pending s id = some r) (page : r.kind = .page)
    (result : Except String π) : Fresh (pageSettles l s id r result) := by
  have timeline : r.kind.timeline = true := by rw [page]; rfl
  cases flies : r.flies r.kind with
  | false =>
    rw [pageSettles_stale (live.1.stale there timeline flies)]
    exact finishRequest_fresh fresh
  | true =>
    have now := live.1.fresh there timeline flies
    obtain ⟨state,_,ready,_,listening,same⟩ := pageSettles_current live.1.running now.1 now.2 result
    rw [same]
    exact fresh.same listening ready rfl rfl (fun _ _ _ all => all.settle id) rfl rfl rfl rfl

theorem refreshSettles_fresh (live : LiveStore s) (fresh : Fresh s) (there : pending s id = some r) (refresh : r.kind = .refresh)
    (result : Except String π) : Fresh (refreshSettles l s id r result) := by
  have found := (pending_some there).1
  have timeline : r.kind.timeline = true := by rw [refresh]; rfl
  cases flies : r.flies r.kind with
  | false =>
    rw [refreshSettles_stale (live.1.stale there timeline flies)]
    exact finishRequest_fresh fresh
  | true =>
    have now := live.1.fresh there timeline flies
    obtain ⟨state,window,failed,_,ready,_,listening,came,same⟩ := refreshSettles_current live.1.running now.1 now.2 result
    rw [refresh] at flies
    have held := List.mem_of_getElem? found
    have busy : (DetailGlue.busy s .refresh).toNat ≠ 0 := by
      rw [← live.1.counts .refresh rfl]
      exact Nat.ne_of_gt (flying_pos.mpr ⟨r,held,flies⟩)
    have on : s.state.ready = true := live.2.ready (.inr (.inr (by simpa [DetailGlue.busy] using busy)))
    rw [same]
    refine ⟨fun listens => (fresh.listens (listening.symm.trans listens)).imp_right fun all => all.settle id,
      fun listens => (fresh.refreshes (listening.symm.trans listens)).settle id,fun listens _ => ?_,fun off => ?_⟩
    · rcases came with new | ⟨_,broke⟩
      · left
        rw [show r.asked.since = s.notified from fresh.refreshes (listening.symm.trans listens) r held flies] at new
        exact new
      · exact .inr (.inl broke)
    · cases (ready.symm.trans off).symm.trans on

theorem listenSettles_fresh (live : LiveStore s) (fresh : Fresh s) (there : pending s id = some r) (listen : r.kind = .listen)
    (result : Except String π) : Fresh (listenSettles l s id r result) := by
  have found := (pending_some there).1
  have timeline : r.kind.timeline = true := by rw [listen]; rfl
  have later := listenSettles_live (l := l) live there listen result
  cases flies : r.flies r.kind with
  | false =>
    rw [listenSettles_stale (live.1.stale there timeline flies)]
    exact finishRequest_fresh fresh
  | true =>
    have now := live.1.fresh there timeline flies
    obtain ⟨state,window,failed,refreshing,ready,loading,listening,came,same⟩ :=
      listenSettles_current live.1.running now.1 now.2 result
    rw [listen] at flies
    have held := List.mem_of_getElem? found
    have under : s.listenInFlight = true := by
      have count := live.1.counts .listen rfl
      have some' := flying_pos.mpr ⟨r,held,flies⟩
      cases under : s.listenInFlight with
      | true => rfl
      | false =>
        rw [count,busy,under] at some'
        exact absurd some' (Nat.lt_irrefl 0)
    have calm : s.refreshInFlight = false := live.1.apart under
    have on : s.state.ready = true := live.2.ready (.inr (.inl under))
    have off : state.ready = false → window = none := fun unready => by cases (ready.symm.trans unready).symm.trans on
    rw [same] at later ⊢
    simp only at later ⊢
    by_cases queued : s.listenQueued = true
    · rw [if_pos queued]
      obtain ⟨owned,shown⟩ := live.noted state window failed ready (fun loads => loading.symm.trans loads)
        fun now => refreshing.symm.trans now
      refine scheduleListenRefetch_fresh ⟨owned.finishes found timeline rfl (fun j timeline => ?_) nofun,?_⟩ ?_ off
      · cases j <;> simp_all [busy,Kind.timeline,Request.flies]
      · exact ⟨shown.begun,fun busy => shown.ready (busy.imp_right fun late => late.imp_left nofun),shown.loading,shown.refreshing⟩
      · exact (live.1.idleFits (k := .refresh) rfl calm _).settle id
    · rw [if_neg queued] at later ⊢
      refine ⟨fun _ => .inr (later.1.idleFits (k := .listen) rfl rfl _),
        fun _ => (live.1.idleFits (k := .refresh) rfl calm _).settle id,fun listens _ => ?_,off⟩
      have told := (fresh.listens (listening.symm.trans listens)).resolve_left queued r held flies
      rcases came with new | ⟨_,broke⟩
      · rw [told] at new
        exact .inl new
      · exact .inr (.inl broke)

theorem lineageSettles_fresh (fresh : Fresh s) (r : Request Kind Asked) (result : Except String (LineageBody χ)) :
    Fresh (lineageSettles s id r result) := by
  have ended : Fresh (finishRequest s id) := finishRequest_fresh fresh
  unfold lineageSettles setState
  cases result with
  | ok body =>
    simp only
    split
    · exact ended
    split
    · exact ended
    · exact ended.same rfl rfl rfl rfl (fun _ _ _ all => all) rfl rfl rfl rfl
  | error reason =>
    simp only
    split
    · exact ended
    · exact ended.same rfl rfl rfl rfl (fun _ _ _ all => all) rfl rfl rfl rfl

theorem advance_fresh {event : Event π χ ω} {s' : DetailStore τ ν χ} (live : LiveStore s) (fresh : Fresh s)
    (calm : ungated s event = true) (stepped : advance l s event = some s') (running : s'.disposed = false) : Fresh s' := by
  cases event with
  | opens =>
    cases Option.some.inj stepped
    exact openStore_fresh live fresh
  | loadMore =>
    cases Option.some.inj stepped
    exact loadMore_fresh live fresh
  | toggleListen =>
    cases Option.some.inj stepped
    exact toggleListen_fresh live fresh calm
  | refreshNewest =>
    cases Option.some.inj stepped
    exact refreshNewest_fresh live fresh
  | notifySnapshot card =>
    cases Option.some.inj stepped
    exact notifySnapshot_fresh live fresh card calm
  | dispose =>
    cases Option.some.inj stepped
    cases (dispose_dead live).disposed.symm.trans running
  | detailSettles n result =>
    obtain ⟨r,found,there⟩ := Option.bind_eq_some_iff.mp stepped
    split at there
    · cases Option.some.inj there
      exact detailSettles_fresh live fresh found result
    · cases there
  | windowSettles n result =>
    obtain ⟨r,found,there⟩ := Option.bind_eq_some_iff.mp stepped
    split at there
    · rename_i page
      cases Option.some.inj there
      exact pageSettles_fresh live fresh found page result
    · rename_i refresh
      cases Option.some.inj there
      exact refreshSettles_fresh live fresh found refresh result
    · rename_i listen
      cases Option.some.inj there
      exact listenSettles_fresh live fresh found listen result
    · cases there
  | lineageSettles n result =>
    obtain ⟨r,_,there⟩ := Option.bind_eq_some_iff.mp stepped
    split at there
    · cases Option.some.inj there
      exact lineageSettles_fresh fresh r result
    · cases there

end Steps

section Claims
variable {l : Logic τ π ν χ ω} {s : DetailStore τ ν χ} {hint : Option DetailHeaderHint} {events : List (Event π χ ω)}

-- A request is in flight until it settles or is aborted; an aborted detail is so while its successor waits for it.
def InFlight (s : DetailStore τ ν χ) (k : Kind) : Prop := ∃ (id : Nat) (r : Request Kind Asked), s.requests[id]? = some r ∧
  r.kind = k ∧ r.settled = false ∧ (r.aborted = false ∨ s.detailInFlight = some id)

-- Aborted, of a generation that is over, or of a store that is disposed.
def Superseded (s : DetailStore τ ν χ) (r : Request Kind Asked) : Prop := s.disposed = true ∨ r.aborted = true ∨
  (r.kind = .detail ∧ r.asked.generation ≠ s.detailGeneration) ∨ (r.kind.timeline = true ∧ r.asked.generation ≠ s.timelineGeneration)

def settlesOf : Event π χ ω → Option Nat
  | .detailSettles id _ => some id
  | .windowSettles id _ => some id
  | .lineageSettles id _ => some id
  | _ => none

abbrev StoreRun (l : Logic τ π ν χ ω) (hint : Option DetailHeaderHint) (allowed : DetailStore τ ν χ → Event π χ ω → Prop) :
    List (Event π χ ω) → DetailStore τ ν χ → Prop := Run (advance l) allowed (newStore l hint)

theorem store_run_lives {allowed : DetailStore τ ν χ → Event π χ ω → Prop} (path : StoreRun l hint allowed events s) : Lives s :=
  path.invariant Lives (.inl (newStore_live hint)) fun _ _ _ lives _ stepped => advance_lives lives stepped

theorem store_run_fresh (path : StoreRun l hint (fun s event => ungated s event = true) events s) (running : s.disposed = false) :
    LiveStore s ∧ Fresh s := by
  have all := path.invariant (fun s => Lives s ∧ (s.disposed = false → Fresh s))
    ⟨.inl (newStore_live hint),fun _ => newStore_fresh hint⟩ fun before event after ⟨lives,fresh⟩ calm stepped => by
      refine ⟨advance_lives lives stepped,fun running => ?_⟩
      rcases lives with live | dead
      · exact advance_fresh live (fresh live.1.running) calm stepped running
      · cases (advance_dead dead stepped).1.disposed.symm.trans running
  exact ⟨all.1.resolve_right fun dead => (by cases dead.disposed.symm.trans running),all.2 running⟩

theorem detailSettles_superseded {id : Nat} {r : Request Kind Asked} (other : isCurrentDetailRequest s id r = false)
    (result : Except String ω) : (detailSettles l s id r result).state = s.state := by
  simp only [detailSettles,other,Bool.false_eq_true,if_false]
  split
  · rfl
  split <;> rfl

theorem superseded_unseen {event : Event π χ ω} {id : Nat} {r : Request Kind Asked} {s' : DetailStore τ ν χ} (live : LiveStore s)
    (settles : settlesOf event = some id) (there : pending s id = some r) (superseded : Superseded s r)
    (stepped : advance l s event = some s') : s'.state = s.state := by
  have running : s.disposed = false := live.1.running
  have stale : r.kind.timeline = true → r.flies r.kind = false := by
    intro timeline
    refine Bool.eq_false_iff.mpr fun flies => ?_
    rcases superseded with gone | aborted | ⟨detail,_⟩ | ⟨_,other⟩
    · cases running.symm.trans gone
    · cases (flies_iff.mp flies).2.1.symm.trans aborted
    · rw [detail] at timeline
      cases timeline
    · exact other ((live.1.landed there timeline).mpr flies)
  cases event with
  | detailSettles n result =>
    cases Option.some.inj settles
    rw [advance,there,Option.bind_some] at stepped
    split at stepped
    · rename_i detail
      cases Option.some.inj stepped
      refine detailSettles_superseded ?_ result
      rcases superseded with gone | aborted | ⟨_,other⟩ | ⟨timeline,_⟩
      · cases running.symm.trans gone
      · simp [isCurrentDetailRequest,aborted]
      · simp [isCurrentDetailRequest,other]
      · rw [detail] at timeline
        cases timeline
    · cases stepped
  | windowSettles n result =>
    cases Option.some.inj settles
    rw [advance,there,Option.bind_some] at stepped
    split at stepped
    · rename_i page
      have timeline : r.kind.timeline = true := by rw [page]; rfl
      cases Option.some.inj stepped
      rw [pageSettles_stale (live.1.stale there timeline (stale timeline))]
      rfl
    · rename_i refresh
      have timeline : r.kind.timeline = true := by rw [refresh]; rfl
      cases Option.some.inj stepped
      rw [refreshSettles_stale (live.1.stale there timeline (stale timeline))]
      rfl
    · rename_i listen
      have timeline : r.kind.timeline = true := by rw [listen]; rfl
      cases Option.some.inj stepped
      rw [listenSettles_stale (live.1.stale there timeline (stale timeline))]
      rfl
    · cases stepped
  | lineageSettles n result =>
    cases Option.some.inj settles
    rw [advance,there,Option.bind_some] at stepped
    split at stepped
    · rename_i lineage
      have sound := live.1.lineage r (List.mem_of_getElem? (pending_some there).1) lineage
      rcases superseded with gone | aborted | ⟨detail,_⟩ | ⟨timeline,_⟩
      · cases running.symm.trans gone
      · cases sound.symm.trans aborted
      · cases lineage.symm.trans detail
      · rw [lineage] at timeline
        cases timeline
    · cases stepped
  | _ => cases settles

theorem Owned.busy_inFlight (owned : Owned s) {k : Kind} (timeline : k.timeline = true) (under : busy s k = true) : InFlight s k := by
  have count := owned.counts k timeline
  rw [under] at count
  obtain ⟨r,inside,flies⟩ := flying_pos.mp (by rw [count]; exact Nat.one_pos)
  obtain ⟨id,there⟩ := List.getElem?_of_mem inside
  obtain ⟨kind,sound,open'⟩ := flies_iff.mp flies
  exact ⟨id,r,there,kind,open',.inl sound⟩

theorem Lives.listens (lives : Lives s) : flying .listen s.requests ≤ 1 := by
  rcases lives with live | dead
  · rw [live.1.counts .listen rfl]
    exact Bool.toNat_le _
  · rw [dead.idle]
    exact Nat.zero_le _

theorem LiveStore.flags (live : LiveStore s) : (¬ InFlight s .detail → ¬ InFlight s .page → s.state.loading = false) ∧
    (¬ InFlight s .refresh → s.state.refreshing = false) := by
  refine ⟨fun detail page => Bool.eq_false_iff.mpr fun loads => ?_,fun refresh => Bool.eq_false_iff.mpr fun on => ?_⟩
  · rcases live.2.loading loads with paging | ⟨_,slot⟩
    · exact page (live.1.busy_inFlight rfl paging)
    · obtain ⟨id,there⟩ := Option.isSome_iff_exists.mp slot
      obtain ⟨r,found,kind,open',_⟩ := live.1.slot id there
      exact detail ⟨id,r,found,kind,open',.inr there⟩
  · exact refresh (live.1.busy_inFlight rfl (live.2.refreshing on))

-- In every run; and, while no refresh in flight keeps a snapshot or the turn to listen mode from asking for the
-- newest window, a store at rest that listens shows what was asked for since the last snapshot.
theorem store_run_shows (path : StoreRun l hint Any events s) :
    (∀ event id r s', settlesOf event = some id → pending s id = some r → Superseded s r → advance l s event = some s' →
      s'.state = s.state) ∧
    flying .listen s.requests ≤ 1 ∧
    (s.disposed = false → (¬ InFlight s .detail → ¬ InFlight s .page → s.state.loading = false) ∧
      (¬ InFlight s .refresh → s.state.refreshing = false)) ∧
    (StoreRun l hint (fun s event => ungated s event = true) events s → s.disposed = false → (∀ k, ¬ InFlight s k) →
      s.state.listening = true → s.failed = false → ∀ since, s.window = some since → s.notified ≤ since) := by
  have lives := store_run_lives path
  refine ⟨fun event id r s' settles there superseded stepped => ?_,lives.listens,fun running => ?_,
    fun calm running quiet on sound since shown => ?_⟩
  · rcases lives with live | dead
    · exact superseded_unseen live settles there superseded stepped
    · exact (advance_dead dead stepped).2
  · exact LiveStore.flags (lives.resolve_right fun dead => by cases dead.disposed.symm.trans running)
  · obtain ⟨⟨owned,live⟩,fresh⟩ := store_run_fresh calm running
    have ready : s.state.ready = true := by
      cases off : s.state.ready with
      | true => rfl
      | false => cases (fresh.unready off).symm.trans shown
    rcases fresh.window on ready with told | broke | listen | refresh
    · cases told.symm.trans shown
      exact Nat.le_refl _
    · cases sound.symm.trans broke
    · exact absurd (owned.busy_inFlight (k := .listen) rfl listen) (quiet _)
    · exact absurd (owned.busy_inFlight (k := .refresh) rfl refresh) (quiet _)

end Claims

-- Pages and details that are lists of entries.
def plain : Logic (List Nat) (List Nat) Unit Unit (List Nat) where
  createTimelineVM := []
  applyTimelinePage := fun timeline page => timeline ++ page
  applyListenPage := fun timeline page => timeline ++ page
  nextCursor := fun _ => none
  normalizeTimelineHealth := fun _ => legacyTimelineHealth
  headerFromDetailWire := fun _ => none
  timeline := some
  unknownAgent := fun agent => agent = ""
  externalLineageFallback := fun _ => none

theorem restful {s : DetailStore τ ν χ} (rested : s.requests.all (fun r => r.settled || r.aborted) = true)
    (slot : s.detailInFlight = none) (k : Kind) : ¬ InFlight s k := by
  rintro ⟨id,r,there,_,open',sound | same⟩
  · have ended := List.all_eq_true.mp rested r (List.mem_of_getElem? there)
    simp [open',sound] at ended
  · cases slot.symm.trans same

-- The view listens, and a snapshot comes while its refetch is in flight.
def listenedRun : List (Event (List Nat) Unit (List Nat)) := [.opens,.detailSettles 0 (.ok [1]),.toggleListen,.notifySnapshot none,
  .windowSettles 1 (.ok [2]),.windowSettles 3 (.ok [2,3]),.detailSettles 2 (.ok [1])]

theorem demo_store_run_shows : ∃ s, StoreRun plain none (fun s event => ungated s event = true) listenedRun s ∧
    s.state.timeline = [1,2,2,3] ∧ s.window = some 1 ∧ s.notified ≤ 1 := by
  have shown : ((follow (advance plain) (fun s event => ungated s event = true) (newStore plain none) listenedRun).map fun s =>
      ((s.disposed,s.requests.all fun r => r.settled || r.aborted,s.detailInFlight),
        (s.state.listening,s.failed,s.window,s.state.timeline))) =
      some ((false,true,none),(true,false,some 1,[1,2,2,3])) := by decide +kernel
  obtain ⟨s,followed,fields⟩ := Option.map_eq_some_iff.mp shown
  simp only [Prod.mk.injEq] at fields
  obtain ⟨⟨running,rested,slot⟩,on,sound,window,timeline⟩ := fields
  have path := follow_exact.mp followed
  have shows := store_run_shows (path.weaken fun _ _ _ => trivial)
  exact ⟨s,path,timeline,window,shows.2.2.2 path running (restful rested slot) on sound 1 window⟩

-- A snapshot comes while a refresh is in flight that was asked for before it.
def droppedSnapshot : List (Event (List Nat) Unit (List Nat)) := [.opens,.detailSettles 0 (.ok [1]),.toggleListen,
  .windowSettles 1 (.ok [1]),.refreshNewest,.notifySnapshot none,.windowSettles 2 (.ok [1]),.detailSettles 3 (.ok [1])]

theorem stale_window_and_stuck_flag :
    (∃ s, StoreRun plain none Any droppedSnapshot s ∧ s.disposed = false ∧ (∀ k, ¬ InFlight s k) ∧ s.state.listening = true ∧
      s.failed = false ∧ s.window = some 0 ∧ s.notified = 1) ∧
    ∃ s, StoreRun plain none Any [.opens,.dispose] s ∧ (∀ k, ¬ InFlight s k) ∧ s.state.loading = true := by
  constructor
  · have shown : ((follow (advance plain) Any (newStore plain none) droppedSnapshot).map fun s =>
        ((s.disposed,s.requests.all fun r => r.settled || r.aborted,s.detailInFlight),
          (s.state.listening,s.failed,s.window,s.notified))) =
        some ((false,true,none),(true,false,some 0,1)) := by decide +kernel
    obtain ⟨s,followed,fields⟩ := Option.map_eq_some_iff.mp shown
    simp only [Prod.mk.injEq] at fields
    obtain ⟨⟨running,rested,slot⟩,on,sound,window,notified⟩ := fields
    exact ⟨s,follow_exact.mp followed,running,restful rested slot,on,sound,window,notified⟩
  · have shown : ((follow (advance plain) Any (newStore plain none) [.opens,.dispose]).map fun s =>
        (s.requests.all fun r => r.settled || r.aborted,s.detailInFlight,s.state.loading)) =
        some (true,none,true) := by decide +kernel
    obtain ⟨s,followed,fields⟩ := Option.map_eq_some_iff.mp shown
    simp only [Prod.mk.injEq] at fields
    obtain ⟨rested,slot,loading⟩ := fields
    exact ⟨s,follow_exact.mp followed,restful rested slot,loading⟩

end AgentSideCar.DetailGlue
