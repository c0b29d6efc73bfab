import Mathlib.Data.List.Dedup
import Mathlib.Data.List.Sort
import AgentSideCar.Library.Dict
import AgentSideCar.Library.Runs
import AgentSideCar.Tail.Pool

-- The pool over any tailers, files and failures. Of a session it reads these fields; `seq`
-- is the integer seq of its extra, if there is one.
namespace AgentSideCar.TailerPool
open Tail (Status suffix)
variable {κ τ γ ε ω : Type}

structure Session (κ : Type) where
  key : κ
  agent : String
  transcript : String
  transcriptKind : Option String
  status : Status
  updatedAt : Int
  seq : Option Int

-- The factory's tailer, an exception the pool notes, or one that leaves the refresh.
inductive Made (τ : Type) where
  | made (tailer : τ)
  | refused
  | escapes

-- All that the pool asks of others; each may change the world. A poll, an export or a
-- publish may raise (none, false); a restore that raises is only noted.
structure Hooks (κ τ γ ε ω : Type) where
  factory : Bool
  make : Session κ → Bool → ω → Made τ × ω
  makeFrom : Session κ → Bool → γ → ω → Made τ × ω
  restoreCheckpoint : τ → γ → ω → ω
  exportCheckpoint : τ → ω → Option γ × ω
  poll : τ → ω → Option (List ε) × ω
  publish : ε → ω → Bool × ω
  adopt : τ → Session κ → ω → ω
  close : τ → ω → ω
  singlePoll : τ → ω → Bool
  hasPendingRecords : τ → ω → Bool
  offset : τ → ω → Option (String × Int)
  size : String → ω → Option Int
  isFile : String → ω → Bool

structure Options where
  tailRecent : Int
  maxEventPolls : Nat
  bounded : 0 ≤ tailRecent ∧ 0 < maxEventPolls

structure Pool (κ τ γ : Type) where
  knownKeys : List κ := []
  tailers : Dict κ τ := .empty
  paths : Dict κ String := .empty
  checkpoints : Dict κ (String × γ) := .empty
  pending : List κ := []
  closed : Bool := false

-- How the polls of one tailer in a refresh end: with an exception of its poll, with one
-- of the publisher, or with the answer whether more is expected.
inductive Outcome where
  | raised
  | escaped
  | ended (more : Bool)
  deriving DecidableEq

-- `polls` notes each tailer a refresh polled, and the world right after its last poll.
structure State (κ τ γ ω : Type) where
  pool : Pool κ τ γ
  world : ω
  polls : List (κ × Outcome × ω) := []

structure Refresh (κ : Type) where
  sessions : List (Session κ)
  changed : List κ
  initial : Bool
  now : Int

def supportsTailing (s : Session κ) : Bool :=
  if s.transcript = "" then false
  else if s.transcriptKind = some "cursor-chat-sqlite" then
    (suffix s.transcript).map Char.toLower ∈ [".db".toList,".sqlite".toList,".sqlite3".toList]
  else if s.agent = "dsh" then true
  else (suffix s.transcript).map Char.toLower = ".jsonl".toList

def shouldTail (o : Options) (now : Int) (s : Session κ) : Bool :=
  supportsTailing s && (s.status = .working || s.status = .waiting || max 0 (now - s.updatedAt) ≤ o.tailRecent)

section Polls
variable (h : Hooks κ τ γ ε ω)

def hasUnreadData (t : τ) (w : ω) : Bool :=
  h.hasPendingRecords t w || match h.offset t w with
    | none => false
    | some (path,offset) => (h.size path w).any (offset < ·)

def publishAll : List ε → ω → Bool × ω
  | [],w => (true,w)
  | event :: rest,w =>
    match h.publish event w with
    | (true,w) => publishAll rest w
    | (false,w) => (false,w)

def pollTailer (t : τ) (single : Bool) : Nat → ω → Outcome × ω
  | 0,w => (.ended true,w)
  | steps+1,w =>
    match h.poll t w with
    | (none,w) => (.raised,w)
    | (some events,w) =>
      match publishAll h events w with
      | (false,w) => (.escaped,w)
      | (true,w) =>
        if single then (.ended (hasUnreadData h t w),w)
        else if events.isEmpty && !hasUnreadData h t w then (.ended false,w)
        else pollTailer t single steps w

section Keyed
variable [DecidableEq κ] (o : Options)

def drop (retainCheckpoint : Bool) (key : κ) (s : State κ τ γ ω) : State κ τ γ ω :=
  let emptied := {s.pool with
    tailers := s.pool.tailers.erase key
    paths := s.pool.paths.erase key
    pending := s.pool.pending.filter (· ≠ key)}
  match s.pool.tailers.get key with
  | none => {s with
    pool := {emptied with
      checkpoints := if retainCheckpoint then s.pool.checkpoints else s.pool.checkpoints.erase key}}
  | some t =>
    if retainCheckpoint then
      let exported := h.exportCheckpoint t s.world
      {s with
        pool := {emptied with
          checkpoints := match s.pool.paths.get key,exported.1 with
            | some path,some checkpoint => (s.pool.checkpoints.erase key).set key (path,checkpoint)
            | _,_ => s.pool.checkpoints.erase key}
        world := h.close t exported.2}
    else {s with
      pool := {emptied with
        checkpoints := s.pool.checkpoints.erase key}
      world := h.close t s.world}

-- Any exception of the factory is noted here.
def captureInitialCheckpoint (key : κ) (session : Session κ) (s : State κ τ γ ω) : State κ τ γ ω :=
  let erased := s.pool.checkpoints.erase key
  let without (w : ω) : State κ τ γ ω := {s with
    pool := {s.pool with
      checkpoints := erased}
    world := w}
  if !supportsTailing session then without s.world
  else if (session.agent = "dsh" && session.seq.isNone) ||
      (session.agent ≠ "dsh" && !h.isFile session.transcript s.world) then without s.world
  else match h.make session false s.world with
    | (.refused,w) => without w
    | (.escapes,w) => without w
    | (.made t,w) =>
      match h.exportCheckpoint t w with
      | (none,w) => without (h.close t w)
      | (some checkpoint,w) => {s with
        pool := {s.pool with
          checkpoints := erased.set key (session.transcript,checkpoint)}
        world := h.close t w}

-- The flag tells whether the tailer was built from the checkpoint.
def makeResumableTailer (session : Session κ) (fromStart : Bool) (checkpoint : Option γ) (w : ω) : (Made τ × ω) × Bool :=
  match checkpoint with
  | some saved =>
    if h.factory = false ∧ session.transcriptKind = some "cursor-chat-sqlite" then (h.makeFrom session fromStart saved w,true)
    else (h.make session fromStart w,false)
  | none => (h.make session fromStart w,false)

def mark (outcome : Outcome) (key : κ) (pending : List κ) : List κ :=
  match outcome with
  | .ended true => if key ∈ pending then pending else pending ++ [key]
  | .escaped => pending
  | _ => pending.filter (· ≠ key)

-- The flag of a step is false where an exception leaves the refresh.
def pollKey (key : κ) (t : τ) (s : State κ τ γ ω) : Bool × State κ τ γ ω :=
  let single := h.singlePoll t s.world
  let polled := pollTailer h t single (if single then 1 else o.maxEventPolls) s.world
  (decide (polled.1 ≠ .escaped),{s with
    pool := {s.pool with
      pending := mark polled.1 key s.pool.pending}
    world := polled.2
    polls := s.polls ++ [(key,polled.1,polled.2)]})

def savedCheckpoint (key : κ) (session : Session κ) (p : Pool κ τ γ) : Option γ :=
  (p.checkpoints.get key).bind fun saved => if saved.1 = session.transcript then some saved.2 else none

def openTailer (initial newSession : Bool) (key : κ) (session : Session κ) (s : State κ τ γ ω) :
    Option τ × Bool × State κ τ γ ω :=
  let checkpoint := savedCheckpoint key session s.pool
  let kept := if checkpoint.isSome then s.pool.checkpoints else s.pool.checkpoints.erase key
  match makeResumableTailer h session (newSession && !initial) checkpoint s.world with
  | ((.refused,w),_) => (none,true,{s with
      pool := {s.pool with
        checkpoints := kept}
      world := w})
  | ((.escapes,w),_) => (none,false,{s with
      pool := {s.pool with
        checkpoints := kept}
      world := w})
  | ((.made t,w),consumed) => (some t,true,{s with
      pool := {s.pool with
        checkpoints := s.pool.checkpoints.erase key
        tailers := s.pool.tailers.set key t
        paths := s.pool.paths.set key session.transcript}
      world := match checkpoint with
        | some saved => if consumed then w else h.restoreCheckpoint t saved w
        | none => w})

def attach (initial newSession : Bool) (key : κ) (session : Session κ) (s : State κ τ γ ω) : Option τ × Bool × State κ τ γ ω :=
  let s := if (s.pool.tailers.get key).isSome && s.pool.paths.get key ≠ some session.transcript then drop h false key s else s
  match s.pool.tailers.get key with
  | some t => (some t,true,{s with
      world := h.adopt t session s.world})
  | none => openTailer h initial newSession key session s

def update (initial newSession : Bool) (now : Int) (key : κ) (session : Session κ) (s : State κ τ γ ω) :
    Bool × State κ τ γ ω :=
  if !shouldTail o now session then
    (true,if initial then captureInitialCheckpoint h key session s else drop h true key s)
  else match attach h initial newSession key session s with
    | (none,returned,s) => (returned,s)
    | (some t,_,s) => if initial then (true,s) else pollKey h o key t s

end Keyed
end Polls

-- The keys of a loop that an exception of its body leaves.
def loop {σ : Type} (body : κ → σ → Bool × σ) : List κ → σ → Bool × σ
  | [],s => (true,s)
  | key :: rest,s =>
    match body key s with
    | (true,s) => loop body rest s
    | (false,s) => (false,s)

section Refreshed
variable [LinearOrder κ] (h : Hooks κ τ γ ε ω) (o : Options)

def currentOf (e : Refresh κ) : Dict κ (Session κ) := e.sessions.foldl (fun current s => current.set s.key s) .empty
def changedOf (e : Refresh κ) : List κ := (currentOf e).keys.filter (· ∈ e.changed)

def expire (e : Refresh κ) (key : κ) (s : State κ τ γ ω) : State κ τ γ ω :=
  match (currentOf e).get key with
  | none => drop h false key s
  | some session => if shouldTail o e.now session then s else drop h true key s

def updateAt (e : Refresh κ) (known : List κ) (key : κ) (s : State κ τ γ ω) : Bool × State κ τ γ ω :=
  match (currentOf e).get key with
  | none => (true,s)
  | some session => update h o e.initial (key ∉ known) e.now key session s

def pollWaiting (key : κ) (s : State κ τ γ ω) : Bool × State κ τ γ ω :=
  match s.pool.tailers.get key with
  | none => (true,{s with
      pool := {s.pool with
        pending := s.pool.pending.filter (· ≠ key)}})
  | some t => pollKey h o key t s

def dropRemoved (e : Refresh κ) (s : State κ τ γ ω) : State κ τ γ ω :=
  (s.pool.knownKeys.filter (· ∉ (currentOf e).keys)).foldl (fun s key => drop h false key s) s

def expireStale (e : Refresh κ) (s : State κ τ γ ω) : State κ τ γ ω :=
  s.pool.tailers.keys.foldl (fun s key => expire h o e key s) s

def updateChanged (e : Refresh κ) (known : List κ) (s : State κ τ γ ω) : Bool × State κ τ γ ω :=
  loop (updateAt h o e known) ((changedOf e).insertionSort (· ≤ ·)) s

def pollPending (e : Refresh κ) (s : State κ τ γ ω) : Bool × State κ τ γ ω :=
  loop (pollWaiting h o) ((s.pool.pending.filter (· ∉ changedOf e)).dedup.insertionSort (· ≤ ·)) s

def refresh (e : Refresh κ) (s : State κ τ γ ω) : Bool × State κ τ γ ω :=
  if s.pool.closed then (true,s)
  else
    let stale := expireStale h o e (dropRemoved h e {s with
      polls := []})
    match updateChanged h o e s.pool.knownKeys stale with
    | (false,s) => (false,s)
    | (true,s) =>
      match pollPending h o e s with
      | (false,s) => (false,s)
      | (true,s) => (true,{s with
        pool := {s.pool with
          knownKeys := (currentOf e).keys}})

-- All state is let go, and the tailers are closed.
def clear (closed : Bool) (s : State κ τ γ ω) : State κ τ γ ω where
  pool := {closed := closed}
  world := s.pool.tailers.values.foldl (fun w t => h.close t w) s.world

inductive Op (κ ω : Type) where
  | refresh (e : Refresh κ)
  | reset
  | close
  | outside (w : ω)

def operate (s : State κ τ γ ω) : Op κ ω → Option (State κ τ γ ω)
  | .refresh e => some (refresh h o e s).2
  | .reset => some (clear h false s)
  | .close => some (if s.pool.closed then s else clear h true s)
  | .outside w => some {s with
    world := w}

end Refreshed

end AgentSideCar.TailerPool
