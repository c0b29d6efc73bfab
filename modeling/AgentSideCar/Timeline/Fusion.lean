import AgentSideCar.Library.Dict
import AgentSideCar.Library.Merge
import AgentSideCar.Library.Paging

namespace AgentSideCar.Timeline
open Paging
variable {δ ε : Type}

inductive Origin where | dsh | sidecar
  deriving DecidableEq

-- Of an event's extra record only an integer `seq` is read.
structure Extra (ε : Type) where
  seq : Option Int
  rest : ε
  deriving DecidableEq

structure TimelineEntry (δ ε : Type) where
  origin : Origin
  seq : Option Int
  ts : Int
  kind : String
  text : String
  data : Option δ
  extra : Option (Extra ε)
  deriving DecidableEq

structure DshSessionEvent (δ : Type) where
  type : String
  seq : Int
  time : Int
  data : δ

structure SidecarEvent (ε : Type) where
  ts : String
  kind : String
  text : String
  extra : Option (Extra ε)

structure TimelineCursor where
  seq : Option Int
  ts : Int
  deriving DecidableEq

def keySep : String := String.singleton (Char.ofNat 0)

def seqOf (ev : SidecarEvent ε) : Option Int := ev.extra.bind (·.seq)

def sidecarEventKey (ev : SidecarEvent ε) : String :=
  match seqOf ev with
  | some seq => "s:" ++ toString seq ++ keySep ++ ev.kind ++ keySep ++ ev.text
  | none => "t:" ++ ev.ts ++ keySep ++ ev.kind ++ keySep ++ ev.text

-- Date.parse, none where it answers NaN.
abbrev DateParse := String → Option Int
def parseTs (dateParse : DateParse) (ts : String) : Int := (dateParse ts).getD 0

def sidecarEntry (dateParse : DateParse) (seq : Option Int) (ev : SidecarEvent ε) : TimelineEntry δ ε :=
  ⟨.sidecar,seq,parseTs dateParse ev.ts,ev.kind,ev.text,none,ev.extra⟩

def dshEntry (ev : DshSessionEvent δ) (twin : Option (SidecarEvent ε)) : TimelineEntry δ ε :=
  ⟨.dsh,some ev.seq,ev.time,ev.type,(twin.map (·.text)).getD "",some ev.data,twin.bind (·.extra)⟩

def twinsBySeq (sidecarEvents : List (SidecarEvent ε)) : Dict Int (List (SidecarEvent ε)) :=
  sidecarEvents.foldl (fun twins ev =>
    match seqOf ev with
    | none => twins
    | some seq => twins.set seq ((twins.get seq).getD [] ++ [ev])) .empty

-- The first twin of a seq folds into its first dsh entry, the others follow it.
def foldDsh (dateParse : DateParse) (twins : Dict Int (List (SidecarEvent ε))) :
    List Int → List (DshSessionEvent δ) → List (TimelineEntry δ ε)
  | _,[] => []
  | dshSeqs,ev :: rest =>
    let group := if ev.seq ∈ dshSeqs then [] else (twins.get ev.seq).getD []
    dshEntry ev group.head? :: (group.drop 1).map (sidecarEntry dateParse (some ev.seq)) ++
      foldDsh dateParse twins (ev.seq :: dshSeqs) rest

def orphans (dateParse : DateParse) (twins : Dict Int (List (SidecarEvent ε)))
    (dshEvents : List (DshSessionEvent δ)) : List (TimelineEntry δ ε) :=
  (twins.entries.filter fun group => group.1 ∉ dshEvents.map (·.seq)).flatMap fun group =>
    group.2.map (sidecarEntry dateParse (some group.1))

abbrev seqOrder (a b : TimelineEntry δ ε) : Prop := a.seq.getD 0 ≤ b.seq.getD 0
abbrev tsOrder (a b : TimelineEntry δ ε) : Prop := a.ts ≤ b.ts

def seqDomain (dateParse : DateParse) (dshEvents : List (DshSessionEvent δ))
    (sidecarEvents : List (SidecarEvent ε)) : List (TimelineEntry δ ε) :=
  let twins := twinsBySeq sidecarEvents
  (foldDsh dateParse twins [] dshEvents ++ orphans dateParse twins dshEvents).insertionSort seqOrder

def unseqed (dateParse : DateParse) (sidecarEvents : List (SidecarEvent ε)) : List (TimelineEntry δ ε) :=
  ((sidecarEvents.filter fun ev => seqOf ev = none).map (sidecarEntry dateParse none)).insertionSort tsOrder

-- Both sorts are stable. The merge takes the seq domain first on equal timestamps.
def mergeTimeline (dateParse : DateParse) (dshEvents : List (DshSessionEvent δ))
    (sidecarEvents : List (SidecarEvent ε)) : List (TimelineEntry δ ε) :=
  Merge.interleave (fun a b => decide (a.ts ≤ b.ts)) (seqDomain dateParse dshEvents sidecarEvents)
    (unseqed dateParse sidecarEvents)

def isBeforeCursor (entry : TimelineEntry δ ε) (cursor : TimelineCursor) : Bool :=
  match cursor.seq,entry.seq with
  | some bound,some seq => decide (seq < bound)
  | _,_ => decide (entry.ts < cursor.ts)

-- What became of one source: not wired, wired without this session, rejected
-- (with the class its error falls in), or answered.
inductive TimelineErrorClass where | sessionAbsent | replayUnsupported
  deriving DecidableEq
inductive Source (α : Type) where
  | unwired
  | missing
  | failed (error : Option TimelineErrorClass)
  | answered (value : α)

inductive TimelineSourceOutcome where
  | succeeded | unavailable | notFound | replayUnsupported | sourceFailed
  deriving DecidableEq

def classifySourceFailure (error : Option TimelineErrorClass) : TimelineSourceOutcome :=
  if error = some .sessionAbsent then .notFound else .sourceFailed
def classifyReplayFailure (error : Option TimelineErrorClass) : TimelineSourceOutcome :=
  if error = some .replayUnsupported then .replayUnsupported else classifySourceFailure error

def Source.outcome {α : Type} (classify : Option TimelineErrorClass → TimelineSourceOutcome) :
    Source α → TimelineSourceOutcome
  | .unwired => .unavailable
  | .missing => .notFound
  | .failed error => classify error
  | .answered _ => .succeeded

def Source.value {α : Type} : Source (List α) → List α
  | .answered events => events
  | _ => []

def Source.contributes {α : Type} : Source α → Bool
  | .answered _ => true
  | _ => false

structure TimelineInputs (δ ε : Type) where
  liveSession : Source (List (DshSessionEvent δ))
  sessionQuery : Source (List (DshSessionEvent δ))
  sidecarReplay : Source (List (SidecarEvent ε))
  buffer : List (SidecarEvent ε)

structure TimelineSources where
  dshLive : Bool
  dshCold : Bool
  sidecarReplay : Bool
  sidecarBuffer : Bool
  deriving DecidableEq

structure TimelineSourceOutcomes where
  liveSession : TimelineSourceOutcome
  sessionQuery : TimelineSourceOutcome
  sidecarReplay : TimelineSourceOutcome
  buffer : TimelineSourceOutcome
  deriving DecidableEq

inductive TimelineDegradedReason where | allSourcesFailed | partialSourceFailure
  deriving DecidableEq

structure TimelinePage (δ ε : Type) where
  entries : List (TimelineEntry δ ε)
  cursor : Option TimelineCursor
  sources : TimelineSources
  sourceOutcomes : TimelineSourceOutcomes
  degraded : Bool
  reason : Option TimelineDegradedReason

def inert (outcome : TimelineSourceOutcome) : Bool :=
  outcome = .unavailable || outcome = .notFound || outcome = .replayUnsupported

def degradationOf (o : TimelineSourceOutcomes) (entriesEmpty : Bool) : Bool × Option TimelineDegradedReason :=
  let outcomes := [o.liveSession,o.sessionQuery,o.sidecarReplay,o.buffer]
  if !outcomes.contains .sourceFailed then (false,none)
  else
    let usable := outcomes.filter (!inert ·)
    (true,some (if entriesEmpty && !usable.isEmpty && usable.all (· = .sourceFailed) then .allSourcesFailed
      else .partialSourceFailure))

-- The session query is consulted only where no live session answered.
def cold (i : TimelineInputs δ ε) : Source (List (DshSessionEvent δ)) :=
  if i.liveSession.contributes then .unwired else i.sessionQuery

def dshEventsOf (i : TimelineInputs δ ε) : List (DshSessionEvent δ) :=
  if i.liveSession.contributes then i.liveSession.value else i.sessionQuery.value

def addSidecar (added : List (SidecarEvent ε)) (ev : SidecarEvent ε) : List (SidecarEvent ε) :=
  if sidecarEventKey ev ∈ added.map sidecarEventKey then added else added ++ [ev]

def sidecarEventsOf (i : TimelineInputs δ ε) : List (SidecarEvent ε) :=
  (i.sidecarReplay.value ++ i.buffer).foldl addSidecar []

def sourcesOf (i : TimelineInputs δ ε) : TimelineSources :=
  ⟨i.liveSession.contributes,(cold i).contributes,i.sidecarReplay.contributes,!i.buffer.isEmpty⟩

def sourceOutcomesOf (i : TimelineInputs δ ε) : TimelineSourceOutcomes :=
  ⟨i.liveSession.outcome classifySourceFailure,(cold i).outcome classifySourceFailure,
    i.sidecarReplay.outcome classifyReplayFailure,if i.buffer.isEmpty then .notFound else .succeeded⟩

-- The scan stops at the first entry that is not older than the cursor.
def scanBefore (cursor : TimelineCursor) : List (TimelineEntry δ ε) → Nat
  | [] => 0
  | entry :: rest => if isBeforeCursor entry cursor then scanBefore cursor rest + 1 else 0

-- A page never begins inside a group of one seq.
def widen (entries : List (TimelineEntry δ ε)) (seq : Int) : Nat → Nat
  | 0 => 0
  | n+1 => if entries[n]?.bind (·.seq) = some seq then widen entries seq n else n + 1

def pageStart (limit : Nat) (entries : List (TimelineEntry δ ε)) (endIdx : Nat) : Nat :=
  let startIdx := endIdx - limit
  match entries[startIdx]?.bind (·.seq) with
  | none => startIdx
  | some seq => widen entries seq startIdx

def timeline (dateParse : DateParse) (i : TimelineInputs δ ε) : List (TimelineEntry δ ε) :=
  mergeTimeline dateParse (dshEventsOf i) (sidecarEventsOf i)

def getSessionTimeline (dateParse : DateParse) (i : TimelineInputs δ ε) (limit : Nat)
    (before : Option TimelineCursor) : TimelinePage δ ε :=
  let entries := timeline dateParse i
  let endIdx := match before with
    | none => entries.length
    | some cursor => scanBefore cursor entries
  let startIdx := pageStart (max 1 limit) entries endIdx
  let window := (entries.take endIdx).drop startIdx
  let cursor := if 0 < startIdx then window.head?.map fun first => ⟨first.seq,first.ts⟩ else none
  let degradation := degradationOf (sourceOutcomesOf i) entries.isEmpty
  ⟨window,cursor,sourcesOf i,sourceOutcomesOf i,degradation.1,degradation.2⟩

-- Following the backward cursor, oldest page first.
def followCursor (dateParse : DateParse) (i : TimelineInputs δ ε) (limit : Nat) :
    Nat → Option TimelineCursor → Option (List (TimelineEntry δ ε))
  | 0,_ => none
  | fuel+1,before =>
    let page := getSessionTimeline dateParse i limit before
    match page.cursor with
    | none => some page.entries
    | some cursor => (followCursor dateParse i limit fuel (some cursor)).map (· ++ page.entries)

def scheme (limit : Nat) : Scheme (TimelineEntry δ ε) TimelineCursor where
  older := isBeforeCursor
  mark first := ⟨first.seq,first.ts⟩
  start := pageStart (max 1 limit)

theorem scanBefore_exact (cursor : TimelineCursor) (entries : List (TimelineEntry δ ε)) :
    scanBefore cursor entries = (entries.takeWhile (isBeforeCursor · cursor)).length := by
  induction entries with
  | nil => rfl
  | cons entry rest ih =>
    rw [scanBefore,List.takeWhile_cons]
    split <;> simp [ih]

theorem widen_le (entries : List (TimelineEntry δ ε)) (seq : Int) (n : Nat) : widen entries seq n ≤ n := by
  induction n with
  | zero => exact le_rfl
  | succ n ih =>
    rw [widen]
    split
    · exact Nat.le_succ_of_le ih
    · exact le_rfl

theorem pageStart_le (limit : Nat) (entries : List (TimelineEntry δ ε)) (endIdx : Nat) :
    pageStart limit entries endIdx ≤ endIdx - limit := by
  unfold pageStart
  simp only
  split
  · exact le_rfl
  · exact widen_le entries _ _

theorem scheme_lawful (limit : Nat) : Lawful (@scheme δ ε limit) := by
  refine ⟨?_,?_,?_⟩
  · intro entry
    cases seq : entry.seq <;> simp [scheme,isBeforeCursor,seq]
  · intro entries finish
    exact (pageStart_le _ entries finish).trans (Nat.sub_le _ _)
  · intro entries finish positive _
    have := pageStart_le (max 1 limit) entries finish
    have : 1 ≤ max 1 limit := le_max_left 1 limit
    simp only [scheme]
    omega

theorem page_exact (dateParse : DateParse) (i : TimelineInputs δ ε) (limit : Nat) (before : Option TimelineCursor) :
    (getSessionTimeline dateParse i limit before).entries =
        (page (scheme limit) (timeline dateParse i) before).entries ∧
      (getSessionTimeline dateParse i limit before).cursor =
        (page (scheme limit) (timeline dateParse i) before).cursor := by
  cases before with
  | none => exact ⟨rfl,rfl⟩
  | some cursor =>
    refine ⟨?_,?_⟩
    · simp only [getSessionTimeline,page,endOf,scheme,scanBefore_exact]
    · simp only [getSessionTimeline,page,endOf,scheme,scanBefore_exact]
      rfl

theorem follow_exact (dateParse : DateParse) (i : TimelineInputs δ ε) (limit fuel : Nat)
    (before : Option TimelineCursor) : followCursor dateParse i limit fuel before =
      walk (scheme limit) (timeline dateParse i) fuel before := by
  induction fuel generalizing before with
  | zero => rfl
  | succ fuel ih =>
    obtain ⟨entries,cursor⟩ := page_exact dateParse i limit before
    simp only [followCursor,walk,entries,cursor]
    split <;> simp_all

-- At every page boundary all earlier entries are older than the boundary entry:
-- by seq where both have one, by timestamp otherwise.
theorem pages_exact (dateParse : DateParse) (i : TimelineInputs δ ε) (limit : Nat) :
    ∃ fuel out, followCursor dateParse i limit fuel none = some out ∧
      (out = timeline dateParse i ↔ Aligned (scheme limit) (timeline dateParse i)) := by
  obtain ⟨fuel,out,walked,full⟩ := walk_exact (scheme_lawful limit) (timeline dateParse i)
  exact ⟨fuel,out,(follow_exact dateParse i limit fuel none).trans walked,full⟩

def message (ts text : String) (seq : Option Int) : SidecarEvent Unit := ⟨ts,"message",text,some ⟨seq,()⟩⟩
def digits : DateParse := fun ts => ["0","1","2","3","4","5","6","7","8","9"].idxOf? ts
def replayed (events : List (SidecarEvent Unit)) : TimelineInputs Unit Unit := ⟨.unwired,.unwired,.answered events,[]⟩

-- Two events of one millisecond, one a page: the older one is never shown. And an
-- event whose clock runs behind hides the two before it.
theorem tied_pages_lose :
    (timeline digits (replayed [message "5" "a" none,message "5" "b" none])).map (·.text) = ["a","b"] ∧
    (followCursor digits (replayed [message "5" "a" none,message "5" "b" none]) 1 9 none).map (·.map (·.text)) =
      some ["b"] ∧
    (timeline digits (replayed [message "3" "a" (some 1),message "9" "c" (some 2),message "4" "d" (some 3),
      message "5" "b" none])).map (·.text) = ["a","b","c","d"] ∧
    (followCursor digits (replayed [message "3" "a" (some 1),message "9" "c" (some 2),message "4" "d" (some 3),
      message "5" "b" none]) 1 9 none).map (·.map (·.text)) = some ["a","d"] := by
  refine ⟨?_,?_,?_,?_⟩
  · decide +kernel
  · decide +kernel
  · decide +kernel
  · decide +kernel

end AgentSideCar.Timeline
