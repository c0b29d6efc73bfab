import AgentSideCar.Library.Dict
import AgentSideCar.Library.Digits
import AgentSideCar.Library.Runs

namespace AgentSideCar.Analysis
open Runs

inductive AnalysisErrorCode where | analysisDisabled | createFailed | timeout | tooManyActive | cancelled
  deriving DecidableEq
inductive AnalysisOutcome where | completed | timeout | failed
  deriving DecidableEq
inductive AnalysisTimeoutStage where | create | firstTurn | followupTurn
  deriving DecidableEq

structure AnalysisResult where
  outcome : AnalysisOutcome
  analysisSessionId : Option String := none
  summary : Option String := none
  timeoutStage : Option AnalysisTimeoutStage := none
  truncated : Bool
  tokensHint : Option Nat := none
  errorCode : Option AnalysisErrorCode := none
  detail : Option String := none
  deriving DecidableEq

structure Options where
  maxInputChars : Nat := 6000
  maxActiveSessions : Nat := 4

-- Whether boundText cuts a text of so many units.
def truncates (o : Options) (units : Nat) : Bool := decide (o.maxInputChars < units)

structure ActiveAnalysis where
  analysisSessionId : String
  handle : Option Nat := none
  busy : Bool
  deriving DecidableEq

-- A session that createAgent resolved with: how often its agent was told to cancel, how often
-- dispose was called.
structure AnalysisSession where
  sessionId : String
  cancels : Nat := 0
  disposals : Nat := 0
  deriving DecidableEq

inductive Phase where | request | followup
  deriving DecidableEq

-- A creation that has not settled, and whether its request gave it up.
structure Creation where
  entry : Nat
  truncated : Bool
  createTimedOut : Bool := false
  deriving DecidableEq
-- A call awaiting whenIdle, and one awaiting the dispose that ends it.
structure Turn where
  phase : Phase
  entry : Nat
  truncated : Bool
  deriving DecidableEq
structure Disposal where
  phase : Phase
  entry : Nat
  result : AnalysisResult
  deriving DecidableEq

-- What callers see: an answer, a cancel that found its session, a follow-up's agent gone.
inductive Happening where
  | returned (phase : Phase) (result : AnalysisResult)
  | cancelled (analysisSessionId : String)
  | lost (analysisSessionId : String)
  deriving DecidableEq

-- The map and the counter, then the world: every entry and session made, in the order made,
-- the calls that have not gone on yet, and what happened, the latest first.
structure AnalysisEngine where
  active : Dict String Nat := Dict.empty
  mintCounter : Nat := 0
  entries : List ActiveAnalysis := []
  sessions : List AnalysisSession := []
  creations : List Creation := []
  turns : List Turn := []
  disposals : List Disposal := []
  happened : List Happening := []

def analysisSessionPrefix : String := "agent-sidecar-analysis-"

-- `now` is the clock's reading in base 36.
def mintSessionId (now : String) (mintCounter : Nat) : String :=
  analysisSessionPrefix ++ now ++ "-" ++ toString mintCounter

def failResult (errorCode : AnalysisErrorCode) (truncated : Bool) (detail : Option String) : AnalysisResult :=
  {outcome := .failed,truncated := truncated,errorCode := some errorCode,detail := detail}

def timeoutResult (truncated : Bool) (analysisSessionId : Option String) (stage : AnalysisTimeoutStage)
    (sofar : String) : AnalysisResult :=
  {outcome := .timeout,analysisSessionId := analysisSessionId,summary := if sofar = "" then none else some sofar,
    truncated := truncated,errorCode := some .timeout,timeoutStage := some stage}

def completedResult (analysisSessionId : Option String) (summary : String) (truncated : Bool)
    (tokensHint : Option Nat) : AnalysisResult :=
  {outcome := .completed,analysisSessionId := analysisSessionId,summary := some summary,truncated := truncated,
    tokensHint := tokensHint}

def returns (phase : Phase) (result : AnalysisResult) (s : AnalysisEngine) : AnalysisEngine :=
  {s with happened := .returned phase result :: s.happened}

def setBusy (e : Nat) (busy : Bool) (s : AnalysisEngine) : AnalysisEngine :=
  {s with entries := s.entries.modify e fun entry => {entry with busy := busy}}

def idOf (s : AnalysisEngine) (e : Nat) : Option String := (s.entries[e]?).map (·.analysisSessionId)
def handleOf (s : AnalysisEngine) (e : Nat) : Option Nat := (s.entries[e]?).bind (·.handle)

def delete (e : Nat) (s : AnalysisEngine) : AnalysisEngine :=
  {s with active := (idOf s e).elim s.active s.active.erase}

-- Both do nothing while the entry has no handle.
def cancelQuietly (e : Nat) (s : AnalysisEngine) : AnalysisEngine :=
  {s with sessions := (handleOf s e).elim s.sessions fun h =>
    s.sessions.modify h fun session => {session with cancels := session.cancels + 1}}
def disposeQuietly (e : Nat) (s : AnalysisEngine) : AnalysisEngine :=
  {s with sessions := (handleOf s e).elim s.sessions fun h =>
    s.sessions.modify h fun session => {session with disposals := session.disposals + 1}}

def loses (e : Nat) (s : AnalysisEngine) : AnalysisEngine :=
  {s with happened := ((idOf s e).map .lost).toList ++ s.happened}

-- The entry leaves the map and its session is disposed of; the call answers when that has settled.
def ends (phase : Phase) (e : Nat) (result : AnalysisResult) (s : AnalysisEngine) : AnalysisEngine :=
  let s := disposeQuietly e (delete e s)
  {s with disposals := s.disposals ++ [⟨phase,e,result⟩]}

-- How a turn goes: the splice may throw at once; else whenIdle settles, or the time is up, and
-- the text is what the session's log then shows.
inductive TurnResult where
  | completed (summary : String) (tokensHint : Option Nat)
  | timeout (sofar : String)
  | threw (detail : String)
  deriving DecidableEq

-- The slot is reserved before the creation is awaited.
def reserve (now : String) (truncated : Bool) (s : AnalysisEngine) : AnalysisEngine :=
  let analysisSessionId := mintSessionId now (s.mintCounter + 1)
  {s with
    mintCounter := s.mintCounter + 1
    entries := s.entries ++ [⟨analysisSessionId,none,true⟩]
    active := s.active.set analysisSessionId s.entries.length
    creations := s.creations ++ [⟨s.entries.length,truncated,false⟩]}

section Steps
variable (o : Options)

-- What a request or a follow-up does once runTurn has answered.
def turned (phase : Phase) (e : Nat) (truncated : Bool) (turn : TurnResult) (s : AnalysisEngine) : AnalysisEngine :=
  match phase with
  | .request =>
    let s := setBusy e false s
    match turn with
    | .threw detail => ends .request e (failResult .createFailed truncated (some detail)) s
    | .timeout sofar => ends .request e (timeoutResult truncated none .firstTurn sofar) (cancelQuietly e s)
    | .completed summary tokensHint => returns .request (completedResult (idOf s e) summary truncated tokensHint) s
  | .followup =>
    match turn with
    | .threw detail => ends .followup e (failResult .cancelled truncated (some detail)) (loses e s)
    | .timeout sofar =>
      setBusy e false (returns .followup (timeoutResult truncated (idOf s e) .followupTurn sofar) (cancelQuietly e s))
    | .completed summary tokensHint =>
      setBusy e false (returns .followup (completedResult (idOf s e) summary truncated tokensHint) s)

-- runTurn up to its await: the splice of the message may throw.
def runTurn (phase : Phase) (e : Nat) (truncated : Bool) (splice : Except String Unit) (s : AnalysisEngine) :
    AnalysisEngine :=
  match splice with
  | .error detail => turned phase e truncated (.threw detail) s
  | .ok () => {s with turns := s.turns ++ [⟨phase,e,truncated⟩]}

def request (allowed : Bool) (now : String) (units : Nat) (s : AnalysisEngine) : AnalysisEngine :=
  if !allowed then returns .request (failResult .analysisDisabled false none) s
  else if o.maxActiveSessions ≤ s.active.size then
    returns .request (failResult .tooManyActive false
      (some ("active analyses at cap (" ++ toString o.maxActiveSessions ++ ")"))) s
  else reserve now (truncates o units) s

-- The request's wait runs out while the creation is pending.
def createTimeout (slot : Nat) (c : Creation) (s : AnalysisEngine) : AnalysisEngine :=
  returns .request (timeoutResult c.truncated none .create "")
    (delete c.entry {s with creations := s.creations.set slot {c with createTimedOut := true}})

-- A session becomes the entry's.
def adopt (e : Nat) (s : AnalysisEngine) : AnalysisEngine :=
  {s with
    sessions := s.sessions ++ [⟨(idOf s e).getD "",0,0⟩]
    entries := s.entries.modify e fun entry => {entry with handle := some s.sessions.length}}

-- The creation settles. A rejection carries its text; a session that arrives late is disposed,
-- any other becomes the entry's, whether or not the map still holds the entry.
def created (c : Creation) (settled : Except String (Except String Unit)) (s : AnalysisEngine) : AnalysisEngine :=
  match c.createTimedOut,settled with
  | true,.error _ => s
  | true,.ok _ => {s with sessions := s.sessions ++ [⟨(idOf s c.entry).getD "",0,1⟩]}
  | false,.error detail => returns .request (failResult .createFailed c.truncated (some detail)) (delete c.entry s)
  | false,.ok splice => runTurn .request c.entry c.truncated splice (adopt c.entry s)

def followup (allowed : Bool) (analysisSessionId : String) (units : Nat) (splice : Except String Unit)
    (s : AnalysisEngine) : AnalysisEngine :=
  if !allowed then returns .followup (failResult .analysisDisabled false none) s
  else match (s.active.get analysisSessionId).bind fun e => (s.entries[e]?).map (e,·) with
    | some (e,⟨_,some _,busy⟩) =>
      if busy then returns .followup (failResult .tooManyActive false
        (some "a turn is already in flight on this analysis session")) s
      else runTurn .followup e (truncates o units) splice (setBusy e true s)
    | _ => returns .followup (failResult .cancelled false (some "unknown or already-cancelled analysis session")) s

def cancel (analysisSessionId : String) (s : AnalysisEngine) : AnalysisEngine :=
  match s.active.get analysisSessionId with
  | none => s
  | some e => disposeQuietly e (cancelQuietly e
      {s with active := s.active.erase analysisSessionId,happened := .cancelled analysisSessionId :: s.happened})

def disposed (d : Disposal) (s : AnalysisEngine) : AnalysisEngine :=
  match d.phase with
  | .request => returns .request d.result s
  | .followup => setBusy d.entry false (returns .followup d.result s)

end Steps

-- A settlement and the call it wakes are one event: whatever runs in between could as well
-- have run before the settlement.
inductive Event where
  | request (allowed : Bool) (now : String) (units : Nat)
  | followup (allowed : Bool) (analysisSessionId : String) (units : Nat) (splice : Except String Unit)
  | cancel (analysisSessionId : String)
  | createTimeout (slot : Nat)
  | created (slot : Nat) (settled : Except String (Except String Unit))
  | turned (slot : Nat) (turn : TurnResult)
  | disposed (slot : Nat)

def leaveCreation (slot : Nat) (s : AnalysisEngine) : AnalysisEngine := {s with creations := s.creations.eraseIdx slot}
def leaveTurn (slot : Nat) (s : AnalysisEngine) : AnalysisEngine := {s with turns := s.turns.eraseIdx slot}
def leaveDisposal (slot : Nat) (s : AnalysisEngine) : AnalysisEngine := {s with disposals := s.disposals.eraseIdx slot}

-- None where the event cannot be: nothing of the kind suspended in that place.
def advance (o : Options) (s : AnalysisEngine) : Event → Option AnalysisEngine
  | .request allowed now units => some (request o allowed now units s)
  | .followup allowed id units splice => some (followup o allowed id units splice s)
  | .cancel id => some (cancel id s)
  | .createTimeout slot => (s.creations[slot]?).bind fun c =>
      if c.createTimedOut then none else some (createTimeout slot c s)
  | .created slot settled => (s.creations[slot]?).map fun c => created c settled (leaveCreation slot s)
  | .turned slot turn => (s.turns[slot]?).map fun t => turned t.phase t.entry t.truncated turn (leaveTurn slot s)
  | .disposed slot => (s.disposals[slot]?).map fun d => disposed d (leaveDisposal slot s)

-- The map holds this very entry.
def mapped (s : AnalysisEngine) (e : Nat) : Bool := (idOf s e).any fun id => s.active.get id = some e

-- A session in the map, and an id that names one.
def Tracked (s : AnalysisEngine) (h : Nat) : Prop := ∃ e, mapped s e = true ∧ handleOf s e = some h
def Named (s : AnalysisEngine) (id : String) : Prop := ∃ e h, s.active.get id = some e ∧ handleOf s e = some h

-- What has to hold in every state an engine reaches.
structure Sound (o : Options) (s : AnalysisEngine) : Prop where
  capped : s.active.size ≤ o.maxActiveSessions
  reserved : ∀ id e, s.active.get id = some e → handleOf s e = none →
    ∃ c ∈ s.creations, c.entry = e ∧ c.createTimedOut = false
  kept : ∀ (h : Nat) session, s.sessions[h]? = some session → Tracked s h ∨ 0 < session.disposals
  single : ∀ (i j : Nat) t u, s.turns[i]? = some t → s.turns[j]? = some u → handleOf s t.entry = handleOf s u.entry → i = j
  completed : ∀ later earlier result, s.happened = later ++ .returned .request result :: earlier →
    result.outcome = .completed → ∃ id, result.analysisSessionId = some id ∧
      (Named s id ∨ .cancelled id ∈ later ∨ .lost id ∈ later)

-- No creation resolves, and no first turn completes, for an entry that has left the map.
def orderly (s : AnalysisEngine) : Event → Bool
  | .created slot (.ok _) => (s.creations[slot]?).all fun c => c.createTimedOut || mapped s c.entry
  | .turned slot (.completed _ _) => (s.turns[slot]?).all fun t => decide (t.phase = .followup) || mapped s t.entry
  | _ => true

def busyOf (s : AnalysisEngine) (e : Nat) : Bool := (s.entries[e]?).any (·.busy)

-- A request has answered 'completed' with this id.
def said (s : AnalysisEngine) (id : String) : Prop := ∃ result, .returned .request result ∈ s.happened ∧
  result.outcome = .completed ∧ result.analysisSessionId = some id

-- What every event keeps of the map, the entries and the calls under way.
structure Held (o : Options) (s : AnalysisEngine) : Prop where
  capped : s.active.size ≤ o.maxActiveSessions
  minted : s.mintCounter = s.entries.length
  named : ∀ e id, idOf s e = some id → ∃ now, id = mintSessionId now (e + 1)
  maps : ∀ id e, s.active.get id = some e → idOf s e = some id
  pending : ∀ c ∈ s.creations, handleOf s c.entry = none ∧ busyOf s c.entry = true
  apart : (s.creations.map (·.entry)).Nodup
  reserved : ∀ id e, s.active.get id = some e → handleOf s e = none →
    ∃ c ∈ s.creations, c.entry = e ∧ c.createTimedOut = false
  running : ∀ t ∈ s.turns, busyOf s t.entry = true ∧ (handleOf s t.entry).isSome = true
  single : (s.turns.map (·.entry)).Nodup
  handles : ∀ e h, handleOf s e = some h → h < s.sessions.length
  distinct : ∀ e f h, handleOf s e = some h → handleOf s f = some h → e = f
  kept : ∀ (h : Nat) session, s.sessions[h]? = some session → Tracked s h ∨ 0 < session.disposals
  ending : ∀ d ∈ s.disposals, d.result.outcome ≠ .completed ∧ (handleOf s d.entry).isSome = true ∧
    mapped s d.entry = false ∧ d.entry ∉ s.turns.map (·.entry)
  established : ∀ id, said s id → ∃ e, idOf s e = some id ∧ (handleOf s e).isSome = true ∧
    ∀ t ∈ s.turns, t.entry = e → t.phase = .followup

-- A completed request's session stays in the map until it is cancelled or lost.
def Told (s : AnalysisEngine) : Prop := ∀ later earlier result,
  s.happened = later ++ .returned .request result :: earlier → result.outcome = .completed →
    ∃ id, result.analysisSessionId = some id ∧ (Named s id ∨ .cancelled id ∈ later ∨ .lost id ∈ later)

variable {o : Options} {s s' : AnalysisEngine} {e f h slot : Nat} {id now : String} {truncated : Bool}

theorem mintSessionId_injective {m n : Nat} (same : mintSessionId now m = mintSessionId now' n) : m = n := by
  have clean : ∀ k : Nat, '-' ∉ (toString k).toList := by
    intro k inside
    rw [Digits.toString_digits] at inside
    have := Digits.digits_digit inside
    revert this
    decide
  have lists := congrArg List.reverse (congrArg String.toList same)
  simp only [mintSessionId,String.toList_append,List.reverse_append,show "-".toList = ['-'] from rfl,
    List.reverse_singleton,List.singleton_append] at lists
  obtain ⟨tails,_⟩ := Digits.split_unique (fun inside => clean m (List.mem_reverse.mp inside))
    (fun inside => clean n (List.mem_reverse.mp inside)) lists
  apply Digits.digits_injective
  rw [← Digits.toString_digits,← Digits.toString_digits]
  exact List.reverse_injective tails

@[simp] theorem idOf_setBusy : idOf (setBusy e busy s) f = idOf s f := by
  simp only [idOf,setBusy,List.getElem?_modify]
  cases s.entries[f]? with
  | none => rfl
  | some entry => by_cases same : e = f <;> simp [same]

@[simp] theorem handleOf_setBusy : handleOf (setBusy e busy s) f = handleOf s f := by
  simp only [handleOf,setBusy,List.getElem?_modify]
  cases s.entries[f]? with
  | none => rfl
  | some entry => by_cases same : e = f <;> simp [same]

theorem busyOf_setBusy (apart : f ≠ e) : busyOf (setBusy e busy s) f = busyOf s f := by
  simp only [busyOf,setBusy,List.getElem?_modify,if_neg (Ne.symm apart)]
  simp

theorem Held.unique (held : Held o s) (left : idOf s e = some id) (right : idOf s f = some id) : e = f := by
  obtain ⟨now,first⟩ := held.named e id left
  obtain ⟨now',second⟩ := held.named f id right
  have := mintSessionId_injective (first.symm.trans second)
  omega

-- No session goes away, and none is disposed of less.
def Grown (l l' : List AnalysisSession) : Prop := l'.length = l.length ∧
  ∀ (h : Nat) after, l'[h]? = some after → ∃ before, l[h]? = some before ∧ before.disposals ≤ after.disposals

theorem grown_refl (l : List AnalysisSession) : Grown l l := ⟨rfl,fun _ after found => ⟨after,found,Nat.le_refl _⟩⟩

theorem Grown.trans {l m r : List AnalysisSession} (first : Grown l m) (second : Grown m r) : Grown l r := by
  refine ⟨second.1.trans first.1,fun h after found => ?_⟩
  obtain ⟨middle,there,more⟩ := second.2 h after found
  obtain ⟨before,here,some'⟩ := first.2 h middle there
  exact ⟨before,here,Nat.le_trans some' more⟩

theorem grown_modify (l : List AnalysisSession) (f : AnalysisSession → AnalysisSession) (more : ∀ x, x.disposals ≤ (f x).disposals) :
    Grown l (l.modify h f) := by
  refine ⟨List.length_modify ..,fun j after found => ?_⟩
  rw [List.getElem?_modify] at found
  obtain ⟨before,here,same⟩ := Option.map_eq_some_iff.mp found
  refine ⟨before,here,?_⟩
  split at same
  · exact same ▸ more before
  · exact same ▸ Nat.le_refl _

theorem cancelQuietly_grown : Grown s.sessions (cancelQuietly e s).sessions := by
  unfold cancelQuietly
  cases handleOf s e with
  | none => exact grown_refl _
  | some h => exact grown_modify _ _ fun x => Nat.le_refl _

theorem disposeQuietly_grown : Grown s.sessions (disposeQuietly e s).sessions := by
  unfold disposeQuietly
  cases handleOf s e with
  | none => exact grown_refl _
  | some h => exact grown_modify _ _ fun x => Nat.le_add_right ..

theorem disposeQuietly_disposed {session : AnalysisSession} (live : handleOf s e = some h)
    (found : (disposeQuietly e s).sessions[h]? = some session) : 0 < session.disposals := by
  simp only [disposeQuietly,live,Option.elim_some,List.getElem?_modify] at found
  obtain ⟨before,_,same⟩ := Option.map_eq_some_iff.mp found
  rw [← same]
  simp

theorem mapped_get (known : idOf s e = some id) : mapped s e = true ↔ s.active.get id = some e := by
  rw [mapped,known]
  simp

theorem Held.busy (held : Held o s) (live : (handleOf s e).isSome = true) (idle : e ∉ s.turns.map (·.entry)) (busy : Bool) :
    Held o (setBusy e busy s) := by
  have same : ∀ f, mapped (setBusy e busy s) f = mapped s f := fun f => by
    rw [mapped,idOf_setBusy]
    rfl
  refine ⟨held.capped,?_,fun f id => ?_,fun id f => ?_,fun c inside => ?_,held.apart,fun id f => ?_,fun t inside => ?_,
    held.single,fun f h => ?_,fun f g h => ?_,fun h session found => ?_,fun d inside => ?_,fun id told => ?_⟩
  · exact held.minted.trans (by simp [setBusy])
  · rw [idOf_setBusy]; exact held.named f id
  · rw [idOf_setBusy]; exact held.maps id f
  · obtain ⟨bare,awaits⟩ := held.pending c inside
    have apart : c.entry ≠ e := fun same => by rw [← same,bare] at live; cases live
    rw [handleOf_setBusy,busyOf_setBusy apart]
    exact ⟨bare,awaits⟩
  · rw [handleOf_setBusy]; exact held.reserved id f
  · have apart : t.entry ≠ e := fun same => idle (same ▸ List.mem_map_of_mem inside)
    rw [busyOf_setBusy apart,handleOf_setBusy]
    exact held.running t inside
  · rw [handleOf_setBusy]; exact held.handles f h
  · rw [handleOf_setBusy,handleOf_setBusy]; exact held.distinct f g h
  · rcases held.kept h session found with ⟨f,inside,live⟩ | gone
    · exact .inl ⟨f,by rwa [same],by rwa [handleOf_setBusy]⟩
    · exact .inr gone
  · rw [same,handleOf_setBusy]; exact held.ending d inside
  · obtain ⟨f,known,live,phases⟩ := held.established id told
    exact ⟨f,by rwa [idOf_setBusy],by rwa [handleOf_setBusy],phases⟩

theorem mapped_erase {l : List AnalysisSession} (inside : mapped {s with active := s.active.erase id,sessions := l} e = true) :
    mapped s e = true ∧ idOf s e ≠ some id := by
  unfold mapped at inside ⊢
  change ((idOf s e).any fun key => decide ((s.active.erase id).get key = some e)) = true at inside
  cases known : idOf s e with
  | none => simp [known] at inside
  | some key =>
    rw [known,Option.any_some,decide_eq_true_eq,Dict.get_erase] at inside
    split at inside
    · cases inside
    · rename_i apart
      exact ⟨by simpa using inside,by simpa using apart⟩

theorem erase_mapped {l : List AnalysisSession} (inside : mapped s e = true) (apart : idOf s e ≠ some id) :
    mapped {s with active := s.active.erase id,sessions := l} e = true := by
  unfold mapped at inside ⊢
  change ((idOf s e).any fun key => decide ((s.active.erase id).get key = some e)) = true
  cases known : idOf s e with
  | none => simp [known] at inside
  | some key =>
    rw [known,Option.any_some,decide_eq_true_eq] at inside
    rw [Option.any_some,decide_eq_true_eq,Dict.get_erase,if_neg fun same => apart (by rw [known,same])]
    exact inside

theorem Held.drop (held : Held o s) {l : List AnalysisSession} (grown : Grown s.sessions l)
    (freed : ∀ e h session, s.active.get id = some e → handleOf s e = some h → l[h]? = some session → 0 < session.disposals) :
    Held o {s with active := s.active.erase id,sessions := l} := by
  have fewer : ∀ key f, (s.active.erase id).get key = some f → s.active.get key = some f := by
    intro key f found
    rw [Dict.get_erase] at found
    split at found
    · cases found
    · exact found
  refine ⟨?_,held.minted,held.named,fun key f found => held.maps key f (fewer key f found),held.pending,held.apart,
    fun key f found => held.reserved key f (fewer key f found),held.running,held.single,?_,held.distinct,?_,?_,held.established⟩
  · refine Nat.le_trans ?_ held.capped
    exact List.length_filter_le ..
  · exact fun f h live => grown.1 ▸ held.handles f h live
  · intro h session found
    obtain ⟨before,here,more⟩ := grown.2 h session found
    rcases held.kept h before here with ⟨f,inside,live⟩ | gone
    · by_cases same : idOf s f = some id
      · exact .inr (freed f h session ((mapped_get same).mp inside) live found)
      · exact .inl ⟨f,erase_mapped inside same,live⟩
    · exact .inr (Nat.lt_of_lt_of_le gone more)
  · intro d inside
    obtain ⟨outcome,live,away,idle⟩ := held.ending d inside
    refine ⟨outcome,live,?_,idle⟩
    cases here : mapped {s with active := s.active.erase id,sessions := l} d.entry with
    | false => rfl
    | true => rw [(mapped_erase here).1] at away; cases away

theorem Held.cancels (held : Held o s) : Held o (cancelQuietly e s) := by
  have grown := cancelQuietly_grown (s := s) (e := e)
  refine ⟨held.capped,held.minted,held.named,held.maps,held.pending,held.apart,held.reserved,held.running,held.single,
    fun f h live => grown.1 ▸ held.handles f h live,held.distinct,fun h session found => ?_,held.ending,held.established⟩
  obtain ⟨before,here,more⟩ := grown.2 h session found
  exact (held.kept h before here).imp_right fun gone => Nat.lt_of_lt_of_le gone more

theorem Held.forget (held : Held o s) (known : idOf s e = some id) : Held o (disposeQuietly e (delete e s)) := by
  have erased : delete e s = {s with active := s.active.erase id} := by simp [delete,known]
  rw [erased]
  apply held.drop (s := s) disposeQuietly_grown
  intro f h session found live here
  rw [held.unique (held.maps id f found) known] at live
  exact disposeQuietly_disposed (s := {s with active := s.active.erase id}) live here

theorem forget_away (known : idOf s e = some id) : mapped (disposeQuietly e (delete e s)) e = false := by
  have erased : delete e s = {s with active := s.active.erase id} := by simp [delete,known]
  rw [erased]
  cases here : mapped (disposeQuietly e {s with active := s.active.erase id}) e with
  | false => rfl
  | true => exact absurd known (mapped_erase here).2

theorem Held.ends (held : Held o s) (d : Disposal) (outcome : d.result.outcome ≠ .completed)
    (live : (handleOf s d.entry).isSome = true) (away : mapped s d.entry = false) (idle : d.entry ∉ s.turns.map (·.entry)) :
    Held o {s with disposals := s.disposals ++ [d]} := by
  refine ⟨held.capped,held.minted,held.named,held.maps,held.pending,held.apart,held.reserved,held.running,held.single,
    held.handles,held.distinct,held.kept,fun x inside => ?_,held.established⟩
  rcases List.mem_append.mp inside with old | new
  · exact held.ending x old
  · cases List.mem_singleton.mp new
    exact ⟨outcome,live,away,idle⟩

theorem Held.tells (held : Held o s) (new : List Happening)
    (fresh : ∀ result id, .returned .request result ∈ new → result.outcome = .completed → result.analysisSessionId = some id →
      ∃ e, idOf s e = some id ∧ (handleOf s e).isSome = true ∧ ∀ t ∈ s.turns, t.entry = e → t.phase = .followup) :
    Held o {s with happened := new ++ s.happened} := by
  refine ⟨held.capped,held.minted,held.named,held.maps,held.pending,held.apart,held.reserved,held.running,held.single,
    held.handles,held.distinct,held.kept,held.ending,?_⟩
  rintro id ⟨result,inside,outcome,named⟩
  rcases List.mem_append.mp inside with late | early
  · exact fresh result id late outcome named
  · exact held.established id ⟨result,early,outcome,named⟩

theorem leaveTurn_held (held : Held o s) : Held o (leaveTurn slot s) := by
  have fewer : ∀ t ∈ s.turns.eraseIdx slot, t ∈ s.turns := fun t inside => List.mem_of_mem_eraseIdx inside
  refine ⟨held.capped,held.minted,held.named,held.maps,held.pending,held.apart,held.reserved,
    fun t inside => held.running t (fewer t inside),held.single.sublist ((List.eraseIdx_sublist ..).map _),
    held.handles,held.distinct,held.kept,fun d inside => ?_,fun id told => ?_⟩
  · obtain ⟨outcome,live,away,idle⟩ := held.ending d inside
    refine ⟨outcome,live,away,fun still => idle ?_⟩
    exact ((List.eraseIdx_sublist ..).map _).subset still
  · obtain ⟨f,known,live,phases⟩ := held.established id told
    exact ⟨f,known,live,fun t inside => phases t (fewer t inside)⟩

theorem leaveDisposal_held (held : Held o s) : Held o (leaveDisposal slot s) := by
  refine ⟨held.capped,held.minted,held.named,held.maps,held.pending,held.apart,held.reserved,held.running,held.single,
    held.handles,held.distinct,held.kept,fun d inside => held.ending d (List.mem_of_mem_eraseIdx inside),held.established⟩

theorem Told.moves (told : Told s) (new : List Happening) (happened : s'.happened = new ++ s.happened)
    (fresh : ∀ result, .returned .request result ∈ new → result.outcome = .completed →
      ∃ id, result.analysisSessionId = some id ∧ Named s' id)
    (stays : ∀ id, said s id → Named s id → Named s' id ∨ .cancelled id ∈ new ∨ .lost id ∈ new) : Told s' := by
  intro later earlier result split outcome
  rw [happened] at split
  rcases List.append_eq_append_iff.mp split with ⟨middle,late,early⟩ | ⟨middle,late,early⟩
  · subst late
    obtain ⟨id,named,there⟩ := told middle earlier result early outcome
    refine ⟨id,named,?_⟩
    rcases there with here | marked | marked
    · have inside : said s id := ⟨result,by simp [early],outcome,named⟩
      rcases stays id inside here with here | marked | marked
      · exact .inl here
      · exact .inr (.inl (List.mem_append_left _ marked))
      · exact .inr (.inr (List.mem_append_left _ marked))
    · exact .inr (.inl (List.mem_append_right _ marked))
    · exact .inr (.inr (List.mem_append_right _ marked))
  · cases middle with
    | nil =>
      rw [List.append_nil] at late
      subst late
      have last : s.happened = .returned .request result :: earlier := early.symm
      obtain ⟨id,named,there⟩ := told [] earlier result last outcome
      have inside : said s id := ⟨result,by simp [last],outcome,named⟩
      simp only [List.not_mem_nil,or_false] at there
      exact ⟨id,named,stays id inside there⟩
    | cons head middle =>
      obtain ⟨rfl,_⟩ := List.cons.inj early
      obtain ⟨id,named,here⟩ := fresh result (by simp [late]) outcome
      exact ⟨id,named,.inl here⟩

def Steady (o : Options) (s : AnalysisEngine) : Prop := Held o s ∧ Told s

theorem Steady.returns (steady : Steady o s) (phase : Phase) (result : AnalysisResult)
    (other : phase = .request → result.outcome ≠ .completed) : Steady o (returns phase result s) := by
  have fresh : ∀ answer, .returned .request answer ∈ [Happening.returned phase result] → answer.outcome ≠ .completed := by
    intro answer inside
    cases List.mem_singleton.mp inside
    exact other rfl
  refine ⟨steady.1.tells [.returned phase result] fun answer id inside outcome _ => absurd outcome (fresh answer inside),?_⟩
  exact steady.2.moves [.returned phase result] rfl (fun answer inside outcome => absurd outcome (fresh answer inside))
    fun id _ here => .inl here

-- An entry with a session and nothing else under way on it.
structure Ready (s : AnalysisEngine) (phase : Phase) (e : Nat) (id : String) (h : Nat) : Prop where
  known : idOf s e = some id
  live : handleOf s e = some h
  idle : e ∉ s.turns.map (·.entry)
  off : ∀ d ∈ s.disposals, d.entry ≠ e
  unsaid : phase = .request → ¬ said s id

theorem Steady.busy (steady : Steady o s) (live : (handleOf s e).isSome = true) (idle : e ∉ s.turns.map (·.entry)) (busy : Bool) :
    Steady o (setBusy e busy s) := by
  refine ⟨steady.1.busy live idle busy,?_⟩
  refine steady.2.moves [] rfl (fun _ inside => nomatch inside) fun id _ here => .inl ?_
  obtain ⟨f,h,found,live⟩ := here
  exact ⟨f,h,found,by rwa [handleOf_setBusy]⟩

theorem Steady.cancels (steady : Steady o s) : Steady o (cancelQuietly e s) :=
  ⟨steady.1.cancels,steady.2.moves [] rfl (fun _ inside => nomatch inside) fun _ _ here => .inl here⟩

-- The end of a session. A request that has named it must be told.
theorem Steady.ends (steady : Steady o s) (known : idOf s e = some id) (live : handleOf s e = some h)
    (idle : e ∉ s.turns.map (·.entry)) (phase : Phase) (result : AnalysisResult) (outcome : result.outcome ≠ .completed)
    (marks : List Happening) (quiet : ∀ answer, .returned .request answer ∉ marks)
    (excused : said s id → .cancelled id ∈ marks ∨ .lost id ∈ marks) :
    Steady o (ends phase e result {s with happened := marks ++ s.happened}) := by
  have marked : Held o {s with happened := marks ++ s.happened} :=
    steady.1.tells marks fun answer _ inside => absurd inside (quiet answer)
  have away : mapped (disposeQuietly e (delete e {s with happened := marks ++ s.happened})) e = false :=
    forget_away (s := {s with happened := marks ++ s.happened}) known
  refine ⟨(marked.forget known).ends ⟨phase,e,result⟩ outcome (Option.isSome_iff_exists.mpr ⟨h,live⟩) away idle,?_⟩
  refine steady.2.moves marks rfl (fun answer inside => absurd inside (quiet answer)) fun key told here => ?_
  obtain ⟨f,j,found,there⟩ := here
  by_cases same : key = id
  · subst same
    exact .inr (excused told)
  · refine .inl ⟨f,j,?_,there⟩
    show (((idOf s e).elim s.active s.active.erase)).get key = some f
    rw [known,Option.elim_some,Dict.get_erase,if_neg same]
    exact found

theorem Ready.busy {phase : Phase} (ready : Ready s phase e id h) (busy : Bool) : Ready (setBusy e busy s) phase e id h :=
  ⟨by rw [idOf_setBusy]; exact ready.known,by rw [handleOf_setBusy]; exact ready.live,ready.idle,ready.off,ready.unsaid⟩

theorem turned_steady {phase : Phase} (steady : Steady o s) (ready : Ready s phase e id h) (truncated : Bool) (turn : TurnResult)
    (shown : phase = .request → ∀ summary hint, turn = .completed summary hint → mapped s e = true) :
    Steady o (turned phase e truncated turn s) := by
  cases phase with
  | request =>
    have calm := steady.busy (Option.isSome_iff_exists.mpr ⟨h,ready.live⟩) ready.idle false
    have ready := ready.busy false
    have unsaid := ready.unsaid rfl
    cases turn with
    | threw detail =>
      exact calm.ends ready.known ready.live ready.idle .request (failResult .createFailed truncated (some detail))
        (by simp [failResult]) [] (fun _ inside => nomatch inside) fun told => absurd told unsaid
    | timeout sofar =>
      exact (calm.cancels (e := e)).ends ready.known ready.live ready.idle .request (timeoutResult truncated none .firstTurn sofar)
        (by simp [timeoutResult]) [] (fun _ inside => nomatch inside) fun told => absurd told unsaid
    | completed summary hint =>
      have inside : mapped (setBusy e false s) e = true := by
        rw [mapped,idOf_setBusy]
        exact shown rfl summary hint rfl
      have named : Named (setBusy e false s) id := ⟨e,h,(mapped_get ready.known).mp inside,ready.live⟩
      refine ⟨calm.1.tells [.returned .request _] fun answer key spoken _ same => ?_,
        calm.2.moves [.returned .request _] rfl (fun answer spoken _ => ?_) fun _ _ here => .inl here⟩
      · cases List.mem_singleton.mp spoken
        refine ⟨e,same,by simp [ready.live],fun t under here => absurd ?_ ready.idle⟩
        exact here ▸ List.mem_map_of_mem under
      · cases List.mem_singleton.mp spoken
        exact ⟨id,ready.known,named⟩
  | followup =>
    cases turn with
    | threw detail =>
      have lost : loses e s = {s with happened := [.lost id] ++ s.happened} := by rw [loses,ready.known]; rfl
      show Steady o (ends .followup e (failResult .cancelled truncated (some detail)) (loses e s))
      rw [lost]
      exact steady.ends ready.known ready.live ready.idle .followup _ (by simp [failResult]) [.lost id]
        (by simp) fun _ => .inr (by simp)
    | timeout sofar =>
      have answered := (steady.cancels (e := e)).returns .followup
        (timeoutResult truncated (idOf s e) .followupTurn sofar) (fun other => nomatch other)
      exact answered.busy (Option.isSome_iff_exists.mpr ⟨h,ready.live⟩) ready.idle false
    | completed summary hint =>
      have answered := steady.returns .followup (completedResult (idOf s e) summary truncated hint) (fun other => nomatch other)
      exact answered.busy (Option.isSome_iff_exists.mpr ⟨h,ready.live⟩) ready.idle false

theorem runTurn_steady {phase : Phase} (steady : Steady o s) (ready : Ready s phase e id h) (busy : busyOf s e = true)
    (truncated : Bool) (splice : Except String Unit) : Steady o (runTurn phase e truncated splice s) := by
  rcases splice with detail | ⟨⟨⟩⟩
  · exact turned_steady steady ready truncated (.threw detail) fun _ _ _ same => nomatch same
  · show Steady o {s with turns := s.turns ++ [⟨phase,e,truncated⟩]}
    obtain ⟨held,told⟩ := steady
    refine ⟨⟨held.capped,held.minted,held.named,held.maps,held.pending,held.apart,held.reserved,fun t inside => ?_,?_,held.handles,
      held.distinct,held.kept,fun d inside => ?_,fun key spoken => ?_⟩,
      told.moves [] rfl (fun _ inside => nomatch inside) fun _ _ here => .inl here⟩
    · rcases List.mem_append.mp inside with old | new
      · exact held.running t old
      · cases List.mem_singleton.mp new
        exact ⟨busy,Option.isSome_iff_exists.mpr ⟨h,ready.live⟩⟩
    · rw [List.map_append,List.nodup_append]
      refine ⟨held.single,by simp,?_⟩
      rintro f old g new rfl
      cases List.mem_singleton.mp new
      exact ready.idle old
    · obtain ⟨outcome,live,away,idle⟩ := held.ending d inside
      refine ⟨outcome,live,away,?_⟩
      rw [List.map_append,List.mem_append,not_or]
      exact ⟨idle,fun same => ready.off d inside (List.mem_singleton.mp same)⟩
    · obtain ⟨f,known,live,phases⟩ := held.established key spoken
      refine ⟨f,known,live,fun t inside same => ?_⟩
      rcases List.mem_append.mp inside with old | new
      · exact phases t old same
      · cases List.mem_singleton.mp new
        subst same
        cases phase with
        | followup => rfl
        | request =>
          have here : key = id := Option.some.inj (known.symm.trans ready.known)
          exact absurd (here ▸ spoken) (ready.unsaid rfl)

theorem erased_apart {α : Type} {l : List α} {i : Nat} {x y : α} (f : α → Nat) (apart : (l.map f).Nodup) (here : l[i]? = some x)
    (other : y ∈ l.eraseIdx i) : f y ≠ f x := by
  obtain ⟨j,away,there⟩ := List.mem_eraseIdx_iff_getElem?.mp other
  intro same
  have left : (l.map f)[i]? = some (f x) := by simp [here]
  have right : (l.map f)[j]? = some (f x) := by simp [there,same]
  obtain ⟨bound,_⟩ := List.getElem?_eq_some_iff.mp right
  exact away ((List.getElem?_inj bound apart).mp (right.trans left.symm))

theorem apart_erased {α : Type} {l : List α} {i : Nat} {x y : α} (f : α → Nat) (here : l[i]? = some x) (inside : y ∈ l)
    (apart : f y ≠ f x) : y ∈ l.eraseIdx i := by
  obtain ⟨j,there⟩ := List.getElem?_of_mem inside
  refine List.mem_eraseIdx_iff_getElem?.mpr ⟨j,fun same => apart ?_,there⟩
  rw [same,here] at there
  exact congrArg f (Option.some.inj there).symm

theorem leaveCreation_held (held : Held o s) {c : Creation} (here : s.creations[slot]? = some c)
    (away : c.createTimedOut = false → mapped s c.entry = false) : Held o (leaveCreation slot s) := by
  have fewer : ∀ x ∈ s.creations.eraseIdx slot, x ∈ s.creations := fun x inside => List.mem_of_mem_eraseIdx inside
  refine ⟨held.capped,held.minted,held.named,held.maps,fun x inside => held.pending x (fewer x inside),
    held.apart.sublist ((List.eraseIdx_sublist ..).map _),fun id f found bare => ?_,held.running,held.single,
    held.handles,held.distinct,held.kept,held.ending,held.established⟩
  obtain ⟨x,inside,same,waits⟩ := held.reserved id f found bare
  have inMap : mapped s f = true := (mapped_get (held.maps id f found)).mpr found
  refine ⟨x,?_,same,waits⟩
  obtain ⟨j,there⟩ := List.getElem?_of_mem inside
  refine List.mem_eraseIdx_iff_getElem?.mpr ⟨j,fun equal => ?_,there⟩
  rw [equal,here] at there
  cases Option.some.inj there
  rw [← same,away waits] at inMap
  cases inMap

theorem Held.giveUp (held : Held o s) {c : Creation} (here : s.creations[slot]? = some c) (away : mapped s c.entry = false) :
    Held o {s with creations := s.creations.set slot {c with createTimedOut := true}} := by
  have entries : (s.creations.set slot {c with createTimedOut := true}).map (·.entry) = s.creations.map (·.entry) := by
    apply List.ext_getElem?
    intro j
    rw [List.getElem?_map,List.getElem?_map,List.getElem?_set]
    split
    · rename_i same
      subst same
      obtain ⟨bound,_⟩ := List.getElem?_eq_some_iff.mp here
      rw [if_pos bound,here]
      rfl
    · rfl
  refine ⟨held.capped,held.minted,held.named,held.maps,fun x inside => ?_,entries ▸ held.apart,fun id f found bare => ?_,
    held.running,held.single,held.handles,held.distinct,held.kept,held.ending,held.established⟩
  · have listed : x.entry ∈ s.creations.map (·.entry) := entries ▸ List.mem_map_of_mem inside
    obtain ⟨old,was,same⟩ := List.mem_map.mp listed
    exact same ▸ held.pending old was
  · obtain ⟨x,inside,same,waits⟩ := held.reserved id f found bare
    have inMap : mapped s f = true := (mapped_get (held.maps id f found)).mpr found
    refine ⟨x,?_,same,waits⟩
    obtain ⟨j,there⟩ := List.getElem?_of_mem inside
    refine List.mem_of_getElem? (i := j) ?_
    rw [List.getElem?_set_ne,there]
    intro equal
    rw [← equal,here] at there
    cases Option.some.inj there
    rw [← same,away] at inMap
    cases inMap

theorem Steady.bare (steady : Steady o s) (known : idOf s e = some id) (bare : handleOf s e = none) : Steady o (delete e s) := by
  have erased : delete e s = {s with active := s.active.erase id} := by simp [delete,known]
  rw [erased]
  refine ⟨steady.1.drop (grown_refl _) fun f h session found live => ?_,
    steady.2.moves [] rfl (fun _ inside => nomatch inside) fun key _ here => .inl ?_⟩
  · rw [steady.1.unique (steady.1.maps id f found) known,bare] at live
    cases live
  · obtain ⟨f,h,found,live⟩ := here
    refine ⟨f,h,?_,live⟩
    rw [show ({s with active := s.active.erase id} : AnalysisEngine).active = s.active.erase id from rfl,Dict.get_erase,if_neg]
    · exact found
    · intro same
      subst same
      rw [steady.1.unique (steady.1.maps key f found) known,bare] at live
      cases live

theorem delete_away (known : idOf s e = some id) : mapped (delete e s) e = false := by
  have erased : delete e s = {s with active := s.active.erase id} := by simp [delete,known]
  rw [erased]
  cases here : mapped {s with active := s.active.erase id} e with
  | false => rfl
  | true => exact absurd known (mapped_erase here).2

theorem busy_inside (busy : busyOf s e = true) : e < s.entries.length := by
  rcases Nat.lt_or_ge e s.entries.length with inside | outside
  · exact inside
  · simp [busyOf,List.getElem?_eq_none outside] at busy

theorem entry_known (live : (handleOf s e).isSome = true) : ∃ id h, idOf s e = some id ∧ handleOf s e = some h := by
  unfold handleOf idOf at *
  cases there : s.entries[e]? with
  | none => simp [there] at live
  | some entry =>
    rw [there,Option.bind_some] at live
    obtain ⟨h,handle⟩ := Option.isSome_iff_exists.mp live
    exact ⟨entry.analysisSessionId,h,rfl,handle⟩

theorem entry_inside (inside : e < s.entries.length) : ∃ id, idOf s e = some id := by
  simp [idOf,List.getElem?_eq_getElem inside]

theorem Steady.late (steady : Steady o s) (sessionId : String) :
    Steady o {s with sessions := s.sessions ++ [⟨sessionId,0,1⟩]} := by
  obtain ⟨held,told⟩ := steady
  refine ⟨⟨held.capped,held.minted,held.named,held.maps,held.pending,held.apart,held.reserved,held.running,held.single,
    fun f h live => ?_,held.distinct,fun h session found => ?_,held.ending,held.established⟩,
    told.moves [] rfl (fun _ inside => nomatch inside) fun _ _ here => .inl here⟩
  · have := held.handles f h live
    simp only [List.length_append,List.length_singleton]
    omega
  · rcases Nat.lt_or_ge h s.sessions.length with old | new
    · rw [List.getElem?_append_left old] at found
      exact held.kept h session found
    · rw [List.getElem?_append_right new] at found
      cases List.mem_singleton.mp (List.mem_of_getElem? found)
      exact .inr Nat.one_pos

theorem idOf_adopt : idOf (adopt e s) f = idOf s f := by
  simp only [idOf,adopt,List.getElem?_modify]
  cases s.entries[f]? with
  | none => rfl
  | some entry => by_cases same : e = f <;> simp [same]

theorem busyOf_adopt : busyOf (adopt e s) f = busyOf s f := by
  simp only [busyOf,adopt,List.getElem?_modify]
  cases s.entries[f]? with
  | none => rfl
  | some entry => by_cases same : e = f <;> simp [same]

theorem handleOf_adopt (inside : e < s.entries.length) :
    handleOf (adopt e s) f = if f = e then some s.sessions.length else handleOf s f := by
  simp only [handleOf,adopt,List.getElem?_modify]
  by_cases same : f = e
  · subst same
    simp [List.getElem?_eq_getElem inside]
  · simp only [if_neg same,if_neg (Ne.symm same)]
    simp

theorem adopt_held (held : Held o s) {c : Creation} (here : s.creations[slot]? = some c) (inside : mapped s c.entry = true) :
    Held o (adopt c.entry (leaveCreation slot s)) := by
  obtain ⟨bare,awaits⟩ := held.pending c (List.mem_of_getElem? here)
  have bound := busy_inside awaits
  have fewer : ∀ x ∈ s.creations.eraseIdx slot, x ∈ s.creations := fun x there => List.mem_of_mem_eraseIdx there
  have others : ∀ x ∈ s.creations.eraseIdx slot, x.entry ≠ c.entry := fun x there =>
    erased_apart (·.entry) held.apart here there
  have ids : ∀ f, idOf (adopt c.entry (leaveCreation slot s)) f = idOf s f := fun f => idOf_adopt
  have marks : ∀ f, mapped (adopt c.entry (leaveCreation slot s)) f = mapped s f := fun f => by
    rw [mapped,ids]
    rfl
  have handle : ∀ f, handleOf (adopt c.entry (leaveCreation slot s)) f =
      if f = c.entry then some s.sessions.length else handleOf s f := fun f =>
    handleOf_adopt (s := leaveCreation slot s) bound
  have live : ∀ f, (handleOf s f).isSome = true → f ≠ c.entry := by
    intro f live same
    rw [same,bare] at live
    cases live
  refine ⟨held.capped,?_,fun f id => by rw [ids]; exact held.named f id,fun id f => by rw [ids]; exact held.maps id f,
    fun x there => ?_,held.apart.sublist ((List.eraseIdx_sublist ..).map _),fun id f found none' => ?_,fun t there => ?_,
    held.single,fun f h there => ?_,fun f g h left right => ?_,fun h session found => ?_,fun d there => ?_,fun id told => ?_⟩
  · exact held.minted.trans (by simp [adopt,leaveCreation])
  · rw [handle,if_neg (others x there),busyOf_adopt]
    exact held.pending x (fewer x there)
  · rw [handle] at none'
    split at none'
    · cases none'
    · rename_i apart
      obtain ⟨x,there,same,waits⟩ := held.reserved id f found none'
      exact ⟨x,apart_erased (·.entry) here there (same ▸ apart),same,waits⟩
  · obtain ⟨busy,some'⟩ := held.running t there
    rw [busyOf_adopt,handle,if_neg (live t.entry some')]
    exact ⟨busy,some'⟩
  · rw [handle] at there
    simp only [adopt,leaveCreation,List.length_append,List.length_singleton]
    split at there
    · cases there
      omega
    · have := held.handles f h there
      omega
  · rw [handle] at left right
    split at left <;> split at right
    · simp [*]
    · cases left
      exact absurd (held.handles g _ right) (Nat.lt_irrefl _)
    · cases right
      exact absurd (held.handles f _ left) (Nat.lt_irrefl _)
    · exact held.distinct f g h left right
  · rcases Nat.lt_or_ge h s.sessions.length with old | new
    · have was : s.sessions[h]? = some session := by
        rw [← found]
        exact (List.getElem?_append_left old).symm
      rcases held.kept h session was with ⟨f,there,some'⟩ | gone
      · exact .inl ⟨f,by rwa [marks],by rwa [handle,if_neg (live f (by rw [some']; rfl))]⟩
      · exact .inr gone
    · have last : h = s.sessions.length := by
        have bound := (List.getElem?_eq_some_iff.mp found).1
        simp only [adopt,leaveCreation,List.length_append,List.length_singleton] at bound
        omega
      exact .inl ⟨c.entry,by rwa [marks],by rw [handle,if_pos rfl,last]⟩
  · obtain ⟨outcome,some',away,idle⟩ := held.ending d there
    rw [marks,handle,if_neg (live d.entry some')]
    exact ⟨outcome,some',away,idle⟩
  · obtain ⟨f,known,some',phases⟩ := held.established id told
    exact ⟨f,by rwa [ids],by rwa [handle,if_neg (live f some')],phases⟩

theorem adopt_steady (steady : Steady o s) {c : Creation} (here : s.creations[slot]? = some c) (inside : mapped s c.entry = true) :
    Steady o (adopt c.entry (leaveCreation slot s)) := by
  obtain ⟨bare,awaits⟩ := steady.1.pending c (List.mem_of_getElem? here)
  have bound := busy_inside awaits
  refine ⟨adopt_held steady.1 here inside,
    steady.2.moves [] rfl (fun _ inside => nomatch inside) fun id _ named => .inl ?_⟩
  obtain ⟨f,h,found,live⟩ := named
  have apart : f ≠ c.entry := fun same => by rw [same,bare] at live; cases live
  refine ⟨f,h,found,?_⟩
  rw [handleOf_adopt (s := leaveCreation slot s) bound,if_neg apart]
  exact live

theorem getElem?_snoc {α : Type} (l : List α) (x : α) (i : Nat) : (l ++ [x])[i]? = if i = l.length then some x else l[i]? := by
  rcases Nat.lt_trichotomy i l.length with below | same | above
  · rw [List.getElem?_append_left below,if_neg (Nat.ne_of_lt below)]
  · subst same
    simp
  · rw [if_neg (Nat.ne_of_gt above),List.getElem?_eq_none (Nat.le_of_lt above),List.getElem?_eq_none]
    simpa using Nat.succ_le_of_lt above

theorem idOf_reserve : idOf (reserve now truncated s) f =
    if f = s.entries.length then some (mintSessionId now (s.mintCounter + 1)) else idOf s f := by
  unfold idOf
  change ((s.entries ++ [_])[f]?).map _ = _
  rw [getElem?_snoc]
  split <;> rfl

theorem handleOf_reserve : handleOf (reserve now truncated s) f = handleOf s f := by
  unfold handleOf
  change ((s.entries ++ [_])[f]?).bind _ = _
  rw [getElem?_snoc]
  split
  · rename_i same
    rw [same,List.getElem?_eq_none (Nat.le_refl _)]
    rfl
  · rfl

theorem busyOf_reserve (inside : f < s.entries.length) : busyOf (reserve now truncated s) f = busyOf s f := by
  unfold busyOf
  change ((s.entries ++ [_])[f]?).any _ = _
  rw [List.getElem?_append_left inside]

theorem known_inside (known : idOf s f = some id) : f < s.entries.length := by
  obtain ⟨entry,there,_⟩ := Option.map_eq_some_iff.mp known
  exact (List.getElem?_eq_some_iff.mp there).1

theorem Held.fresh (held : Held o s) (now : String) : s.active.get (mintSessionId now (s.mintCounter + 1)) = none := by
  cases found : s.active.get (mintSessionId now (s.mintCounter + 1)) with
  | none => rfl
  | some f =>
    have known := held.maps _ f found
    obtain ⟨now',same⟩ := held.named f _ known
    have := mintSessionId_injective same
    have := known_inside known
    have := held.minted
    omega

theorem reserve_steady (steady : Steady o s) (room : s.active.size < o.maxActiveSessions) : Steady o (reserve now truncated s) := by
  obtain ⟨held,told⟩ := steady
  have fresh := held.fresh now
  have old : ∀ {f id}, idOf s f = some id → f ≠ s.entries.length := fun known => Nat.ne_of_lt (known_inside known)
  have live : ∀ {f}, (handleOf s f).isSome = true → f < s.entries.length := fun live =>
    known_inside (entry_known live).choose_spec.choose_spec.1
  have get : ∀ id, (reserve now truncated s).active.get id =
      if id = mintSessionId now (s.mintCounter + 1) then some s.entries.length else s.active.get id := fun id => Dict.get_set _
  have marks : ∀ f, f < s.entries.length → mapped (reserve now truncated s) f = mapped s f := by
    intro f inside
    obtain ⟨id,known⟩ := entry_inside inside
    have apart : id ≠ mintSessionId now (s.mintCounter + 1) := by
      intro same
      obtain ⟨now',named⟩ := held.named f id known
      have := mintSessionId_injective (same.symm.trans named)
      have := held.minted
      omega
    rw [mapped,idOf_reserve,if_neg (Nat.ne_of_lt inside),mapped,known,Option.any_some,Option.any_some,get,if_neg apart]
  refine ⟨⟨?_,?_,fun f id known => ?_,fun id f found => ?_,fun c inside => ?_,?_,fun id f found bare => ?_,fun t inside => ?_,
    held.single,fun f h => ?_,fun f g h => ?_,fun h session found => ?_,fun d inside => ?_,fun id spoken => ?_⟩,
    told.moves [] rfl (fun _ inside => nomatch inside) fun id _ named => .inl ?_⟩
  · exact Nat.le_trans (Nat.le_of_eq (Dict.size_set _ fresh _)) room
  · simp [reserve,held.minted]
  · rw [idOf_reserve] at known
    split at known
    · rename_i same
      cases known
      exact ⟨now,by rw [same,held.minted]⟩
    · exact held.named f id known
  · rw [get] at found
    rw [idOf_reserve]
    split at found
    · rename_i same
      cases found
      rw [if_pos rfl,same]
    · have known := held.maps id f found
      rw [if_neg (old known)]
      exact known
  · rw [handleOf_reserve]
    rcases List.mem_append.mp inside with early | new
    · obtain ⟨bare,awaits⟩ := held.pending c early
      exact ⟨bare,by rwa [busyOf_reserve (busy_inside awaits)]⟩
    · cases List.mem_singleton.mp new
      exact ⟨by simp [handleOf],by simp [busyOf,reserve]⟩
  · change ((s.creations ++ [_]).map _).Nodup
    rw [List.map_append,List.nodup_append]
    refine ⟨held.apart,by simp,?_⟩
    rintro f early g new rfl
    cases List.mem_singleton.mp new
    obtain ⟨c,inside,same⟩ := List.mem_map.mp early
    exact absurd same (Nat.ne_of_lt (busy_inside (held.pending c inside).2))
  · rw [get] at found
    rw [handleOf_reserve] at bare
    split at found
    · cases found
      exact ⟨_,List.mem_append_right _ (List.mem_singleton_self _),rfl,rfl⟩
    · obtain ⟨c,inside,same,waits⟩ := held.reserved id f found bare
      exact ⟨c,List.mem_append_left _ inside,same,waits⟩
  · obtain ⟨busy,some'⟩ := held.running t inside
    rw [busyOf_reserve (live some'),handleOf_reserve]
    exact ⟨busy,some'⟩
  · rw [handleOf_reserve]; exact held.handles f h
  · rw [handleOf_reserve,handleOf_reserve]; exact held.distinct f g h
  · rcases held.kept h session found with ⟨f,inside,some'⟩ | gone
    · exact .inl ⟨f,by rwa [marks f (live (by rw [some']; rfl))],by rwa [handleOf_reserve]⟩
    · exact .inr gone
  · obtain ⟨outcome,some',away,idle⟩ := held.ending d inside
    exact ⟨outcome,by rwa [handleOf_reserve],by rwa [marks _ (live some')],idle⟩
  · obtain ⟨f,known,some',phases⟩ := held.established id spoken
    exact ⟨f,by rwa [idOf_reserve,if_neg (old known)],by rwa [handleOf_reserve],phases⟩
  · obtain ⟨f,h,found,some'⟩ := named
    refine ⟨f,h,?_,by rwa [handleOf_reserve]⟩
    rw [get,if_neg]
    · exact found
    · intro same
      rw [same,fresh] at found
      cases found

theorem request_steady (steady : Steady o s) (allowed : Bool) (units : Nat) : Steady o (request o allowed now units s) := by
  unfold request
  split
  · exact steady.returns .request _ fun _ => by simp [failResult]
  split
  · exact steady.returns .request _ fun _ => by simp [failResult]
  · rename_i room
    exact reserve_steady steady (Nat.lt_of_not_le room)

theorem createTimeout_steady (steady : Steady o s) {c : Creation} (here : s.creations[slot]? = some c) :
    Steady o (createTimeout slot c s) := by
  obtain ⟨bare,awaits⟩ := steady.1.pending c (List.mem_of_getElem? here)
  have bound := busy_inside awaits
  obtain ⟨id,known⟩ := entry_inside bound
  have gone := steady.bare known bare
  have given : Steady o {delete c.entry s with creations := s.creations.set slot {c with createTimedOut := true}} :=
    ⟨gone.1.giveUp here (delete_away known),gone.2.moves [] rfl (fun _ inside => nomatch inside) fun _ _ named => .inl named⟩
  exact given.returns .request (timeoutResult c.truncated none .create "") fun _ => by simp [timeoutResult]

theorem Steady.left (steady : Steady o s) {c : Creation} (here : s.creations[slot]? = some c)
    (away : c.createTimedOut = false → mapped s c.entry = false) : Steady o (leaveCreation slot s) :=
  ⟨leaveCreation_held steady.1 here away,
    steady.2.moves [] rfl (fun _ inside => nomatch inside) fun _ _ named => .inl named⟩

theorem created_steady (steady : Steady o s) {c : Creation} (here : s.creations[slot]? = some c)
    (settled : Except String (Except String Unit))
    (calm : ∀ splice, settled = .ok splice → c.createTimedOut = false → mapped s c.entry = true) :
    Steady o (created c settled (leaveCreation slot s)) := by
  obtain ⟨bare,awaits⟩ := steady.1.pending c (List.mem_of_getElem? here)
  have bound := busy_inside awaits
  obtain ⟨id,known⟩ := entry_inside bound
  unfold created
  split
  · rename_i timedOut
    exact steady.left here fun waits => by rw [timedOut] at waits; cases waits
  · rename_i timedOut
    exact (steady.left here fun waits => by rw [timedOut] at waits; cases waits).late _
  · have gone := (steady.bare known bare).left here fun _ => delete_away known
    exact gone.returns .request _ fun _ => by simp [failResult]
  · rename_i splice waits
    have inside := calm splice rfl waits
    have adopted := adopt_steady steady here inside
    have live : handleOf (adopt c.entry (leaveCreation slot s)) c.entry = some s.sessions.length := by
      rw [handleOf_adopt (s := leaveCreation slot s) bound,if_pos rfl]
      rfl
    have unlit : ∀ f, (handleOf s f).isSome = true → f ≠ c.entry := by
      intro f lit same
      rw [same,bare] at lit
      cases lit
    refine runTurn_steady adopted ⟨idOf_adopt.trans known,live,fun under => ?_,
      fun d there => unlit d.entry (steady.1.ending d there).2.1,fun _ spoken => ?_⟩ ?_ _ splice
    · obtain ⟨t,there,same⟩ := List.mem_map.mp under
      exact unlit t.entry (steady.1.running t there).2 same
    · obtain ⟨f,named,lit,_⟩ := steady.1.established id spoken
      exact unlit f lit (steady.1.unique named known)
    · rw [busyOf_adopt]
      exact awaits

theorem followup_steady (steady : Steady o s) (allowed : Bool) (units : Nat) (splice : Except String Unit) :
    Steady o (followup o allowed id units splice s) := by
  unfold followup
  split
  · exact steady.returns .followup _ (by simp)
  split
  · rename_i e key h busy found
    obtain ⟨f,mapping,there⟩ := Option.bind_eq_some_iff.mp found
    obtain ⟨entry,there,same⟩ := Option.map_eq_some_iff.mp there
    cases same
    split
    · exact steady.returns .followup _ (by simp)
    · rename_i free
      have known := steady.1.maps id e mapping
      have live : handleOf s e = some h := by simp [handleOf,there]
      have idle : e ∉ s.turns.map (·.entry) := by
        intro under
        obtain ⟨t,inside,same⟩ := List.mem_map.mp under
        have := (steady.1.running t inside).1
        rw [same] at this
        simp [busyOf,there,free] at this
      have inMap : mapped s e = true := (mapped_get known).mpr mapping
      have off : ∀ d ∈ s.disposals, d.entry ≠ e := by
        intro d inside same
        have away := (steady.1.ending d inside).2.2.1
        rw [same,inMap] at away
        cases away
      have ready : Ready s .followup e id h := ⟨known,live,idle,off,by simp⟩
      refine runTurn_steady (steady.busy (Option.isSome_iff_exists.mpr ⟨h,live⟩) idle true) (ready.busy true) ?_ _ splice
      simp [busyOf,setBusy,there]
  · exact steady.returns .followup _ (by simp)

theorem cancel_steady (steady : Steady o s) : Steady o (cancel id s) := by
  unfold cancel
  split
  · exact steady
  rename_i e mapping
  have known := steady.1.maps id e mapping
  have quiet : ∀ answer, .returned .request answer ∉ [Happening.cancelled id] := by simp
  have marked : Held o {s with happened := [.cancelled id] ++ s.happened} :=
    steady.1.tells [.cancelled id] fun answer _ inside => absurd inside (quiet answer)
  refine ⟨?_,steady.2.moves [.cancelled id] rfl (fun answer inside => absurd inside (quiet answer)) fun key _ named => ?_⟩
  · refine marked.drop (cancelQuietly_grown.trans disposeQuietly_grown) fun f h session found live there => ?_
    have same : f = e := steady.1.unique (steady.1.maps id f found) known
    subst same
    exact disposeQuietly_disposed (s := cancelQuietly f
      {s with active := s.active.erase id,happened := .cancelled id :: s.happened}) live there
  · obtain ⟨f,h,found,live⟩ := named
    by_cases same : key = id
    · exact .inr (.inl (by simp [same]))
    · refine .inl ⟨f,h,?_,live⟩
      show (s.active.erase id).get key = some f
      rw [Dict.get_erase,if_neg same]
      exact found

theorem turnedEvent_steady (steady : Steady o s) {t : Turn} (here : s.turns[slot]? = some t) (turn : TurnResult)
    (calm : t.phase = .request → ∀ summary hint, turn = .completed summary hint → mapped s t.entry = true) :
    Steady o (turned t.phase t.entry t.truncated turn (leaveTurn slot s)) := by
  have under := List.mem_of_getElem? here
  obtain ⟨id,h,known,live⟩ := entry_known (steady.1.running t under).2
  have left : Steady o (leaveTurn slot s) :=
    ⟨leaveTurn_held steady.1,steady.2.moves [] rfl (fun _ inside => nomatch inside) fun _ _ named => .inl named⟩
  refine turned_steady left ⟨known,live,fun still => ?_,fun d inside same => ?_,fun request spoken => ?_⟩ _ turn calm
  · obtain ⟨u,there,same⟩ := List.mem_map.mp still
    exact erased_apart (·.entry) steady.1.single here there same
  · exact (steady.1.ending d inside).2.2.2 (same ▸ List.mem_map_of_mem under)
  · obtain ⟨f,named,_,phases⟩ := steady.1.established id spoken
    have := phases t under (steady.1.unique named known).symm
    rw [request] at this
    cases this

theorem disposed_steady (steady : Steady o s) {d : Disposal} (here : s.disposals[slot]? = some d) :
    Steady o (disposed d (leaveDisposal slot s)) := by
  obtain ⟨outcome,live,_,idle⟩ := steady.1.ending d (List.mem_of_getElem? here)
  have left : Steady o (leaveDisposal slot s) :=
    ⟨leaveDisposal_held steady.1,steady.2.moves [] rfl (fun _ inside => nomatch inside) fun _ _ named => .inl named⟩
  unfold disposed
  split
  · exact left.returns .request _ fun _ => outcome
  · exact (left.returns .followup d.result fun other => nomatch other).busy live idle false

theorem initial_steady : Steady o {} := by
  refine ⟨⟨Nat.zero_le _,rfl,by simp [idOf],by simp [Dict.get_empty],by simp,by simp,by simp [Dict.get_empty],by simp,by simp,
    by simp [handleOf],by simp [handleOf],by simp,by simp,by simp [said]⟩,?_⟩
  intro later earlier result split
  simp at split

theorem advance_steady (event : Event) (steady : Steady o s) (calm : orderly s event = true) (step : advance o s event = some s') :
    Steady o s' := by
  cases event with
  | request allowed now units =>
    cases Option.some.inj step
    exact request_steady steady allowed units
  | followup allowed id units splice =>
    cases Option.some.inj step
    exact followup_steady steady allowed units splice
  | cancel id =>
    cases Option.some.inj step
    exact cancel_steady steady
  | createTimeout slot =>
    obtain ⟨c,here,there⟩ := Option.bind_eq_some_iff.mp step
    split at there
    · cases there
    · cases Option.some.inj there
      exact createTimeout_steady steady here
  | created slot settled =>
    obtain ⟨c,here,rfl⟩ := Option.map_eq_some_iff.mp step
    refine created_steady steady here settled fun splice same waits => ?_
    subst same
    simpa [orderly,here,waits] using calm
  | turned slot turn =>
    obtain ⟨t,here,rfl⟩ := Option.map_eq_some_iff.mp step
    refine turnedEvent_steady steady here turn fun request summary hint same => ?_
    subst same
    simpa [orderly,here,request] using calm
  | disposed slot =>
    obtain ⟨d,here,rfl⟩ := Option.map_eq_some_iff.mp step
    exact disposed_steady steady here

theorem steady_sound (steady : Steady o s) : Sound o s := by
  obtain ⟨held,told⟩ := steady
  refine ⟨held.capped,held.reserved,held.kept,fun i j t u left right same => ?_,told⟩
  obtain ⟨_,h,_,live⟩ := entry_known (held.running t (List.mem_of_getElem? left)).2
  have entries : t.entry = u.entry := held.distinct t.entry u.entry h live (same ▸ live)
  have first : (s.turns.map (·.entry))[i]? = some t.entry := by simp [left]
  have second : (s.turns.map (·.entry))[j]? = some t.entry := by simp [right,entries]
  obtain ⟨bound,_⟩ := List.getElem?_eq_some_iff.mp first
  exact (List.getElem?_inj bound held.single).mp (first.trans second.symm)

theorem uncancelled_run_tracks (path : Run (advance o) (fun s event => orderly s event = true) {} events s) : Sound o s :=
  steady_sound (path.invariant (Steady o) initial_steady fun _ event _ steady calm step => advance_steady event steady calm step)

def demoId : String := "agent-sidecar-analysis-k-1"

-- An analysis that is asked once more, runs out of time there, and is cancelled in the end.
def demoRun : List Event := [.request true "k" 12,.created 0 (.ok (.ok ())),.turned 0 (.completed "insight" (some 7)),
  .followup true demoId 3 (.ok ()),.turned 0 (.timeout "so far"),.cancel demoId]

theorem demo_run_tracks : ∃ s, Run (advance {}) (fun s event => orderly s event = true) {} demoRun s ∧
    s.sessions = [⟨demoId,2,1⟩] ∧ Sound {} s := by
  have shown : ((follow (advance {}) (fun s event => orderly s event = true) {} demoRun).map (·.sessions)) =
      some [⟨demoId,2,1⟩] := by decide +kernel
  obtain ⟨s,path,sessions⟩ := Option.map_eq_some_iff.mp shown
  exact ⟨s,follow_exact.mp path,sessions,uncancelled_run_tracks (follow_exact.mp path)⟩

-- Cancelled while its creation is pending: the session still comes, runs its turn, and is kept by nobody.
def leakRun : List Event := [.request true "k" 12,.cancel demoId,.created 0 (.ok (.ok ())),
  .turned 0 (.completed "insight" none)]

theorem cancelled_creation_leaks : ∃ s, Run (advance {}) Any {} leakRun s ∧
    s.sessions = [⟨demoId,0,0⟩] ∧ s.active.entries = [] ∧
    s.happened.head? = some (.returned .request (completedResult (some demoId) "insight" false none)) ∧ ¬ Sound {} s := by
  have shown : ((follow (advance {}) Any {} leakRun).map fun s => (s.sessions,s.active.entries,s.happened.head?)) =
      some ([⟨demoId,0,0⟩],[],some (.returned .request (completedResult (some demoId) "insight" false none))) := by decide +kernel
  obtain ⟨s,path,fields⟩ := Option.map_eq_some_iff.mp shown
  simp only [Prod.mk.injEq] at fields
  obtain ⟨sessions,active,answered⟩ := fields
  refine ⟨s,follow_exact.mp path,sessions,active,answered,fun sound => ?_⟩
  rcases sound.kept 0 ⟨demoId,0,0⟩ (by simp [sessions]) with ⟨e,inside,_⟩ | gone
  · unfold mapped at inside
    cases known : idOf s e with
    | none => simp [known] at inside
    | some id => simp [known,Dict.get,active] at inside
  · exact absurd gone (Nat.lt_irrefl _)

end AgentSideCar.Analysis
