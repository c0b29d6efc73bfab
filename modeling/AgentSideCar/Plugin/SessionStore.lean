import AgentSideCar.Library.Dict
import AgentSideCar.Library.Digits
import AgentSideCar.Library.Runs
import Mathlib.Data.List.Induction
import Mathlib.Data.Rat.Init
import Mathlib.Algebra.Order.Ring.Unbundled.Rat

namespace AgentSideCar.SessionCache
open Ever

-- What a row holds under a key: a text, a finite number, or anything else, an accessor and
-- nothing at all among it.
inductive Own where
  | text (value : String)
  | number (value : Rat)
  | other
  deriving DecidableEq

structure Extra where
  model : Own := .other
  modelProvider : Own := .other
  createdAtEpoch : Own := .other
  agentSidecarAnalysis : Bool := false
  deriving DecidableEq

structure SessionRow where
  plainPrototype : Bool := true
  agent : Own
  sessionId : Own
  status : Own
  title : Own
  project : Own
  updatedAt : Own
  transcript : Own := .other
  extra : Option Extra := none
  deriving DecidableEq

-- A text by its UTF-16 units.
abbrev EventText := List Nat

inductive Seq where
  | integer (value : Int)
  | other
  deriving DecidableEq

structure SidecarEvent where
  agent : String
  sessionId : String
  ts : String
  kind : String
  text : EventText
  seq : Seq
  deriving DecidableEq

structure Projection where
  agent : String
  sessionId : String
  status : String
  title : String
  project : String
  updatedAt : Rat
  createdAt : Option Rat
  transcript : Option String
  model : Option String
  modelProvider : Option String
  deriving DecidableEq

structure StoredSession (ι : Type) where
  row : Projection
  injectEligibility : ι
  deriving DecidableEq

structure SessionEventSummary where
  ts : String
  kind : String
  text : EventText
  deriving DecidableEq

structure EventSideState where
  lastEvent : Option SessionEventSummary := none
  lastSeq : Option Int := none
  gap : Bool := false
  deriving DecidableEq

structure SessionStore (ι : Type) where
  rows : Dict String (StoredSession ι) := .empty
  eventState : Dict String EventSideState := .empty
  lastReconcileAt : Option Int := none

structure SessionView (ι : Type) where
  row : Projection
  lastEvent : Option SessionEventSummary
  gap : Bool
  injectEligibility : ι

-- Whether a text trims to nothing, and the verdict on a full row.
structure Rules (ι : Type) where
  blank : String → Bool
  deriveInjectEligibility : SessionRow → ι

def eventTextLimit : Nat := 160
def analysisSessionPrefix : String := "agent-sidecar-analysis-"

def sessionKey (agent sessionId : String) : String := agent ++ "\x00" ++ sessionId

def truncate (text : EventText) (limit : Nat) : EventText :=
  if text.length ≤ limit then text else text.take (limit - 1) ++ [0x2026]

def extractSeq (ev : SidecarEvent) : Option Int :=
  match ev.seq with
  | .integer value => some value
  | .other => none

def isAnalysisSession (sessionId : String) (extra : Option Extra) : Bool :=
  analysisSessionPrefix.toList.isPrefixOf sessionId.toList || extra.any (·.agentSidecarAnalysis)

section Store
variable {ι : Type} (r : Rules ι)

def unblank : Own → Option String
  | .text value => if r.blank value then none else some value
  | _ => none

def createdAt (updatedAt : Rat) : Own → Option Rat
  | .number value => if 0 < value ∧ value ≤ updatedAt then some value else none
  | _ => none

def snapshotProjection (row : SessionRow) : Option Projection :=
  if row.plainPrototype then
    match row.agent,row.sessionId,row.status,row.title,row.project,row.updatedAt with
    | .text agent,.text sessionId,.text status,.text title,.text project,.number updatedAt =>
      if agent = "" ∨ sessionId = "" then none
      else some {
        agent,sessionId,status,title,project,updatedAt
        createdAt := row.extra.bind fun extra => createdAt updatedAt extra.createdAtEpoch
        transcript := match row.transcript with
          | .text path => if path = "" then none else some path
          | _ => none
        model := row.extra.bind fun extra => unblank r extra.model
        modelProvider := row.extra.bind fun extra => unblank r extra.modelProvider }
    | _,_,_,_,_,_ => none
  else none

def snapshotRow (next : Dict String (StoredSession ι)) (row : SessionRow) : Dict String (StoredSession ι) :=
  match snapshotProjection r row with
  | none => next
  | some projection =>
    if isAnalysisSession projection.sessionId row.extra then next
    else next.set (sessionKey projection.agent projection.sessionId) ⟨projection,r.deriveInjectEligibility row⟩

-- A session that is shown has its flag cleared; one that is not is forgotten.
def applySnapshot (now : Int) (rows : List SessionRow) (s : SessionStore ι) : SessionStore ι :=
  let next := rows.foldl (snapshotRow r) .empty
  { rows := next
    eventState := (s.eventState.filter fun key _ => decide (key ∈ next.keys)).mapValues fun state => {state with gap := false}
    lastReconcileAt := some now }

def foldSeq (state : EventSideState) : Option Int → EventSideState
  | none => state
  | some seq => {state with gap := state.gap || state.lastSeq.any (· + 1 < seq),lastSeq := some seq}

def applyEvent (ev : SidecarEvent) (s : SessionStore ι) : SessionStore ι :=
  let key := sessionKey ev.agent ev.sessionId
  let state := (s.eventState.get key).getD {}
  let summed := {state with lastEvent := some ⟨ev.ts,ev.kind,truncate ev.text eventTextLimit⟩}
  {s with eventState := s.eventState.set key (foldSeq summed (extractSeq ev))}

def toView (s : SessionStore ι) (key : String) (row : StoredSession ι) : SessionView ι :=
  let state := s.eventState.get key
  ⟨row.row,state.bind (·.lastEvent),(state.map (·.gap)).getD false,row.injectEligibility⟩

def getSession (s : SessionStore ι) (agent sessionId : String) : Option (SessionView ι) :=
  (s.rows.get (sessionKey agent sessionId)).map (toView s (sessionKey agent sessionId))

inductive Op where
  | snapshot (now : Int) (rows : List SessionRow)
  | event (ev : SidecarEvent)

def apply (s : SessionStore ι) : Op → SessionStore ι
  | .snapshot now rows => applySnapshot r now rows s
  | .event ev => applyEvent ev s

def run (ops : List Op) : SessionStore ι := ops.foldl (apply r) {}

end Store

def Op.isEvent : Op → Prop
  | .snapshot .. => False
  | .event _ => True

-- A snapshot shows the session of a key.
def shows (r : Rules ι) (key : String) (rows : List SessionRow) : Prop :=
  ∃ row ∈ rows, ∃ projection, snapshotProjection r row = some projection ∧
    isAnalysisSession projection.sessionId row.extra = false ∧ sessionKey projection.agent projection.sessionId = key

-- An event of the session carries a seq.
def carries (key : String) (seq : Int) : Op → Prop
  | .snapshot .. => False
  | .event ev => sessionKey ev.agent ev.sessionId = key ∧ extractSeq ev = some seq

def Numbered (key : String) (op : Op) : Prop := ∃ seq, carries key seq op

-- The last seq that came for a session, where `kept` says of a snapshot that it leaves it standing.
def LastSeq (kept : List SessionRow → Prop) (key : String) (ops : List Op) (seq : Int) : Prop :=
  Since (fun _ op => carries key seq op)
    (fun op => ¬ Numbered key op ∧ ∀ now rows, op = .snapshot now rows → kept rows) ops

-- Since the last snapshot, a seq came that left out others behind the last one.
def HoleSeen (kept : List SessionRow → Prop) (key : String) (ops : List Op) : Prop :=
  Since (fun before op => ∃ last seq, LastSeq kept key before last ∧ carries key seq op ∧ last + 1 < seq) Op.isEvent ops

def sideState (s : SessionStore ι) (key : String) : EventSideState := (s.eventState.get key).getD {}

def gapFlag (s : SessionStore ι) (key : String) : Bool := (sideState s key).gap

section Proofs
variable {ι : Type} {r : Rules ι} {key : String} {ops : List Op} {kept : List SessionRow → Prop}

theorem sessionKey_injective {agent sessionId other id : String} (plain : '\x00' ∉ agent.toList) (plainOther : '\x00' ∉ other.toList)
    (same : sessionKey agent sessionId = sessionKey other id) : agent = other ∧ sessionId = id := by
  have chars : agent.toList ++ '\x00' :: sessionId.toList = other.toList ++ '\x00' :: id.toList := by
    have lists := congrArg String.toList same
    have zero : "\x00".toList = ['\x00'] := rfl
    simpa only [sessionKey,String.toList_append,List.append_assoc,zero,List.singleton_append] using lists
  obtain ⟨left,right⟩ := Digits.split_unique plain plainOther chars
  exact ⟨String.toList_inj.mp left,String.toList_inj.mp right⟩

theorem snapshotRows_keys (rows : List SessionRow) (next : Dict String (StoredSession ι)) :
    key ∈ (rows.foldl (snapshotRow r) next).keys ↔ key ∈ next.keys ∨ shows r key rows := by
  induction rows generalizing next with
  | nil => simp [shows]
  | cons row rest ih =>
    have split : shows r key (row :: rest) ↔ (∃ projection, snapshotProjection r row = some projection ∧
        isAnalysisSession projection.sessionId row.extra = false ∧ sessionKey projection.agent projection.sessionId = key) ∨
        shows r key rest := by simp [shows]
    rw [List.foldl_cons,ih,split,← or_assoc]
    refine or_congr ?_ Iff.rfl
    unfold snapshotRow
    cases projected : snapshotProjection r row with
    | none => simp
    | some projection =>
      cases analysis : isAnalysisSession projection.sessionId row.extra with
      | true => simp [analysis]
      | false =>
        simp only [analysis,Bool.false_eq_true,if_false,Option.some.injEq,exists_eq_left',true_and]
        rw [Dict.mem_keys,Dict.mem_keys]
        simp only [Dict.get_set]
        by_cases own : key = sessionKey projection.agent projection.sessionId
        · simp [own]
        · simp [own,Ne.symm own]

theorem sideState_snapshot (r : Rules ι) (key : String) (now : Int) (rows : List SessionRow) (s : SessionStore ι) :
    (shows r key rows → sideState (applySnapshot r now rows s) key = {sideState s key with gap := false}) ∧
    (¬ shows r key rows → sideState (applySnapshot r now rows s) key = {}) := by
  have member : key ∈ (rows.foldl (snapshotRow r) Dict.empty).keys ↔ shows r key rows := by
    rw [snapshotRows_keys]
    simp [Dict.keys,Dict.empty]
  unfold sideState applySnapshot
  simp only
  rw [Dict.get_mapValues,Dict.get_filter]
  constructor
  · intro shown
    simp only [member.mpr shown,decide_true]
    cases s.eventState.get key <;> rfl
  · intro absent
    simp only [mt member.mp absent,decide_false]
    cases s.eventState.get key <;> rfl

theorem sideState_event (key : String) (ev : SidecarEvent) (s : SessionStore ι) :
    (sessionKey ev.agent ev.sessionId = key → ∃ summary, sideState (applyEvent ev s) key =
      foldSeq {sideState s key with lastEvent := summary} (extractSeq ev)) ∧
    (sessionKey ev.agent ev.sessionId ≠ key → sideState (applyEvent ev s) key = sideState s key) := by
  unfold sideState applyEvent
  dsimp only
  constructor
  · rintro rfl
    rw [Dict.get_set,if_pos rfl]
    exact ⟨_,rfl⟩
  · intro other
    rw [Dict.get_set,if_neg (Ne.symm other)]

theorem lastSeq_snapshot (now : Int) (rows : List SessionRow) (seq : Int) :
    LastSeq kept key (ops ++ [.snapshot now rows]) seq ↔ kept rows ∧ LastSeq kept key ops seq := by
  rw [LastSeq,since_snoc]
  simp [carries,Numbered,LastSeq]

theorem lastSeq_event (ev : SidecarEvent) (seq : Int) : LastSeq kept key (ops ++ [.event ev]) seq ↔
    carries key seq (.event ev) ∨ ¬ Numbered key (.event ev) ∧ LastSeq kept key ops seq := by
  rw [LastSeq,since_snoc]
  simp [LastSeq]

theorem hole_snapshot (kept : List SessionRow → Prop) (key : String) (ops : List Op) (now : Int) (rows : List SessionRow) : ¬ HoleSeen kept key (ops ++ [.snapshot now rows]) := by
  rw [HoleSeen,since_snoc]
  simp [carries,Op.isEvent]

theorem hole_event (ev : SidecarEvent) : HoleSeen kept key (ops ++ [.event ev]) ↔
    (∃ last seq, LastSeq kept key ops last ∧ carries key seq (.event ev) ∧ last + 1 < seq) ∨ HoleSeen kept key ops := by
  rw [HoleSeen,since_snoc]
  simp [HoleSeen,Op.isEvent]

-- The state kept beside a session is what its history says.
structure Tracks (r : Rules ι) (key : String) (ops : List Op) (state : EventSideState) : Prop where
  last : ∀ seq, state.lastSeq = some seq ↔ LastSeq (shows r key) key ops seq
  gap : state.gap = true ↔ HoleSeen (shows r key) key ops

theorem snapshot_tracks (tracks : Tracks r key ops (sideState s key)) (now : Int) (rows : List SessionRow) :
    Tracks r key (ops ++ [.snapshot now rows]) (sideState (applySnapshot r now rows s) key) := by
  obtain ⟨shown,absent⟩ := sideState_snapshot r key now rows s
  have none := hole_snapshot (shows r key) key ops now rows
  by_cases present : shows r key rows
  · rw [shown present]
    refine ⟨fun seq => ?_,⟨nofun,fun seen => absurd seen none⟩⟩
    rw [lastSeq_snapshot,and_iff_right present]
    exact tracks.last seq
  · rw [absent present]
    refine ⟨fun seq => ⟨nofun,fun stood => ?_⟩,⟨nofun,fun seen => absurd seen none⟩⟩
    exact absurd ((lastSeq_snapshot now rows seq).mp stood).1 present

theorem event_tracks (tracks : Tracks r key ops (sideState s key)) (ev : SidecarEvent) :
    Tracks r key (ops ++ [.event ev]) (sideState (applyEvent ev s) key) := by
  obtain ⟨own,other⟩ := sideState_event key ev s
  -- Only an event of this session that carries a seq has a part in its history.
  have silent (quiet : ∀ seq, ¬ carries key seq (.event ev)) (state : EventSideState) (lastSeq : state.lastSeq = (sideState s key).lastSeq)
      (gap : state.gap = (sideState s key).gap) : Tracks r key (ops ++ [.event ev]) state := by
    have unnumbered : ¬ Numbered key (.event ev) := fun ⟨seq,carried⟩ => quiet seq carried
    refine ⟨fun seq => ?_,?_⟩
    · rw [lastSeq_event,or_iff_right (quiet seq),and_iff_right unnumbered,lastSeq]
      exact tracks.last seq
    · rw [hole_event,or_iff_right (by rintro ⟨_,seq,_,carried,_⟩; exact quiet seq carried),gap]
      exact tracks.gap
  by_cases mine : sessionKey ev.agent ev.sessionId = key
  · obtain ⟨summary,same⟩ := own mine
    rw [same]
    cases carried : extractSeq ev with
    | none => exact silent (fun seq has => by rw [has.2] at carried; cases carried) _ rfl rfl
    | some seq =>
      have here : ∀ other, carries key other (.event ev) ↔ other = seq := fun other => by
        simp [carries,mine,carried,eq_comm]
      refine ⟨fun other => ?_,?_⟩
      · rw [lastSeq_event,here,or_iff_left (by rintro ⟨never,_⟩; exact never ⟨seq,(here seq).mpr rfl⟩)]
        simp [foldSeq,eq_comm]
      · rw [hole_event,← tracks.gap]
        simp only [foldSeq,Bool.or_eq_true,Option.any_eq_true,decide_eq_true_eq,here]
        constructor
        · rintro (before | ⟨last,stood,less⟩)
          · exact .inr before
          · exact .inl ⟨last,seq,(tracks.last last).mp stood,rfl,less⟩
        · rintro (⟨last,_,stood,rfl,less⟩ | before)
          · exact .inr ⟨last,(tracks.last last).mpr stood,less⟩
          · exact .inl before
  · rw [other mine]
    exact silent (fun seq has => mine has.1) _ rfl rfl

theorem run_tracks (r : Rules ι) (key : String) (ops : List Op) : Tracks r key ops (sideState (run r ops) key) := by
  induction ops using List.reverseRecOn with
  | nil => exact ⟨fun seq => ⟨nofun,fun stood => absurd stood since_nil⟩,⟨nofun,fun seen => absurd seen since_nil⟩⟩
  | append_singleton ops op ih =>
    rw [run,List.foldl_append,List.foldl_cons,List.foldl_nil]
    cases op with
    | snapshot now rows => exact snapshot_tracks ih now rows
    | event ev => exact event_tracks ih ev

theorem snapshot_clears (r : Rules ι) (s : SessionStore ι) (now : Int) (rows : List SessionRow) (key : String) :
    gapFlag (applySnapshot r now rows s) key = false := by
  obtain ⟨shown,absent⟩ := sideState_snapshot r key now rows s
  unfold gapFlag
  by_cases present : shows r key rows
  · rw [shown present]
  · rw [absent present]

theorem unnumbered_keeps (s : SessionStore ι) (ev : SidecarEvent) (none : extractSeq ev = none) (key : String) :
    gapFlag (applyEvent ev s) key = gapFlag s key := by
  obtain ⟨own,other⟩ := sideState_event key ev s
  unfold gapFlag
  by_cases mine : sessionKey ev.agent ev.sessionId = key
  · obtain ⟨summary,same⟩ := own mine
    rw [same,none]
    rfl
  · rw [other mine]

theorem numbered_follows (s : SessionStore ι) (carried : carries key seq (.event ev)) (stood : (sideState s key).lastSeq = some last)
    (nothing : seq ≤ last + 1) : gapFlag (applyEvent ev s) key = gapFlag s key ∧ (sideState (applyEvent ev s) key).lastSeq = some seq := by
  obtain ⟨mine,numbered⟩ := carried
  obtain ⟨summary,same⟩ := (sideState_event key ev s).1 mine
  unfold gapFlag
  rw [same,numbered]
  refine ⟨?_,rfl⟩
  simp [foldSeq,stood,nothing]

-- After any run, the flag of a session is up where a seq of it came, since the last snapshot,
-- that left out others behind its last one, and no snapshot without the session came between
-- the two. A snapshot takes the flag down, an event without a seq leaves it alone, and a seq
-- that does not leap ahead only becomes the last one.
theorem gap_exact (r : Rules ι) (ops : List Op) (agent sessionId : String) :
    (gapFlag (run r ops) (sessionKey agent sessionId) = true ↔
      HoleSeen (shows r (sessionKey agent sessionId)) (sessionKey agent sessionId) ops) ∧
    (∀ view, getSession (run r ops) agent sessionId = some view → view.gap = gapFlag (run r ops) (sessionKey agent sessionId)) ∧
    (∀ now rows, gapFlag (applySnapshot r now rows (run r ops)) (sessionKey agent sessionId) = false) ∧
    (∀ ev, extractSeq ev = none → gapFlag (applyEvent ev (run r ops)) (sessionKey agent sessionId) =
      gapFlag (run r ops) (sessionKey agent sessionId)) ∧
    (∀ ev seq last, carries (sessionKey agent sessionId) seq (.event ev) →
      (sideState (run r ops) (sessionKey agent sessionId)).lastSeq = some last → seq ≤ last + 1 →
        gapFlag (applyEvent ev (run r ops)) (sessionKey agent sessionId) = gapFlag (run r ops) (sessionKey agent sessionId) ∧
        (sideState (applyEvent ev (run r ops)) (sessionKey agent sessionId)).lastSeq = some seq) ∧
    ∀ other id, '\x00' ∉ agent.toList → '\x00' ∉ other.toList → sessionKey agent sessionId = sessionKey other id →
      agent = other ∧ sessionId = id := by
  refine ⟨(run_tracks r _ ops).gap,fun view shown => ?_,fun now rows => snapshot_clears r _ now rows _,
    fun ev none => unnumbered_keeps _ ev none _,fun ev seq last carried stood nothing => numbered_follows _ carried stood nothing,
    fun other id plain plainOther same => sessionKey_injective plain plainOther same⟩
  obtain ⟨row,_,same⟩ := Option.map_eq_some_iff.mp shown
  rw [← same]
  unfold toView gapFlag sideState
  cases (run r ops).eventState.get (sessionKey agent sessionId) <;> rfl

end Proofs

def demoRules : Rules Unit := ⟨fun _ => false,fun _ => ()⟩

def demoRow : SessionRow := ⟨true,.text "dsh",.text "s",.text "idle",.text "",.text "",.number 1,.other,none⟩

def demoEvent (seq : Int) : Op := .event ⟨"dsh","s","","user",[],.integer seq⟩

def demoOps : List Op := [.snapshot 0 [demoRow],demoEvent 1,demoEvent 3]

theorem demo_gap : gapFlag (run demoRules demoOps) (sessionKey "dsh" "s") = true ∧
    gapFlag (applySnapshot demoRules 1 [demoRow] (run demoRules demoOps)) (sessionKey "dsh" "s") = false ∧
    gapFlag (applyEvent ⟨"dsh","s","","user",[],.integer 2⟩ (run demoRules demoOps)) (sessionKey "dsh" "s") = true := by
  obtain ⟨seen,_,cleared,_,follows,_⟩ := gap_exact demoRules demoOps "dsh" "s"
  have flagged : gapFlag (run demoRules demoOps) (sessionKey "dsh" "s") = true := by decide
  refine ⟨flagged,cleared 1 [demoRow],?_⟩
  rw [(follows ⟨"dsh","s","","user",[],.integer 2⟩ 2 3 ⟨rfl,rfl⟩ (by decide) (by decide)).1]
  exact seen.mpr (seen.mp flagged)

-- A session that a snapshot leaves out and a later one shows again starts anew: its seqs 1
-- and 7 raise no flag.
theorem readded_session_unflagged : ¬ ∀ (r : Rules Unit) (ops : List Op) (agent sessionId : String),
    gapFlag (run r ops) (sessionKey agent sessionId) = true ↔
      HoleSeen (fun _ => True) (sessionKey agent sessionId) ops := by
  intro claimed
  have carried (seq : Int) : carries (sessionKey "dsh" "s") seq (demoEvent seq) := ⟨rfl,rfl⟩
  have snapshots : ∀ op ∈ ([.snapshot 1 [],.snapshot 2 [demoRow]] : List Op), ¬ Numbered (sessionKey "dsh" "s") op := by
    intro op inside
    rcases List.mem_cons.mp inside with rfl | later
    · exact fun ⟨_,never⟩ => never
    · rw [List.mem_singleton.mp later]
      exact fun ⟨_,never⟩ => never
  have stood : LastSeq (fun _ => True) (sessionKey "dsh" "s") [.snapshot 0 [demoRow],demoEvent 1,.snapshot 1 [],.snapshot 2 [demoRow]] 1 :=
    ⟨[.snapshot 0 [demoRow]],demoEvent 1,[.snapshot 1 [],.snapshot 2 [demoRow]],rfl,carried 1,
      fun op inside => ⟨snapshots op inside,fun _ _ _ => trivial⟩⟩
  have hole : HoleSeen (fun _ => True) (sessionKey "dsh" "s")
      [.snapshot 0 [demoRow],demoEvent 1,.snapshot 1 [],.snapshot 2 [demoRow],demoEvent 7] :=
    ⟨[.snapshot 0 [demoRow],demoEvent 1,.snapshot 1 [],.snapshot 2 [demoRow]],demoEvent 7,[],rfl,⟨1,7,stood,carried 7,by decide⟩,nofun⟩
  exact absurd ((claimed demoRules _ "dsh" "s").mpr hole) (by decide)

end AgentSideCar.SessionCache
