import Mathlib.Data.List.Dedup
import Mathlib.Data.List.Sort
import AgentSideCar.Library.Dict
import AgentSideCar.Tail.Follower

namespace AgentSideCar.Tail
variable {κ ρ ε : Type}

inductive Status where | working | waiting | idle | dead
  deriving DecidableEq

-- A session with a JSONL transcript; dsh replays and Cursor databases have tailers
-- of their own. `detail` is the rest of its row.
structure Session (κ : Type) where
  key : κ
  transcript : String
  status : Status
  updatedAt : Int
  detail : String
  deriving DecidableEq

structure Tailer (κ ρ : Type) where
  session : Session κ
  follower : Follower ρ

-- A record a tailer handed over, with the events its adapter made of it.
structure Delivery (κ ρ ε : Type) where
  key : κ
  record : ρ
  events : List ε

structure Options (κ ρ ε : Type) where
  reader : Reader ρ
  normalize : Session κ → ρ → List ε
  tailRecent : Int
  maxEventPolls : Nat
  bounded : 0 ≤ tailRecent ∧ 0 < maxEventPolls

-- A pool that has not been closed.
structure Pool (κ ρ ε : Type) where
  knownKeys : List κ := []
  tailers : Dict κ (Tailer κ ρ) := .empty
  paths : Dict κ String := .empty
  checkpoints : Dict κ (String × Checkpoint ρ) := .empty
  pending : List κ := []
  published : List (Delivery κ ρ ε) := []

-- One refresh: the sessions of the scan, and each file at each look. Look 0 serves a
-- new tailer, look 2i+1 the i-th poll, and look 2i+2 the size asked for after it.
structure Refresh (κ : Type) where
  sessions : List (Session κ)
  changed : List κ
  initial : Bool
  now : Int
  files : String → Nat → Option File

def suffix (path : String) : List Char :=
  let name := ((path.toList.splitOn '/').filter fun part => part ≠ [] ∧ part ≠ ['.']).getLast?.getD []
  let ext := (name.reverse.takeWhile (· ≠ '.')).reverse
  if ext ≠ [] ∧ ext.length + 1 < name.length then '.' :: ext else []

def supportsTailing (s : Session κ) : Bool := (suffix s.transcript).map Char.toLower = ".jsonl".toList

def ageSeconds (now : Int) (s : Session κ) : Int := max 0 (now - s.updatedAt)

def shouldTail (o : Options κ ρ ε) (now : Int) (s : Session κ) : Bool :=
  supportsTailing s && (s.status = .working || s.status = .waiting || ageSeconds now s ≤ o.tailRecent)

section Keyed
variable [DecidableEq κ]

def drop (retainCheckpoint : Bool) (key : κ) (p : Pool κ ρ ε) : Pool κ ρ ε :=
  {p with
    checkpoints := match p.tailers.get key,p.paths.get key with
      | some t,some path =>
        if retainCheckpoint then
          (p.checkpoints.erase key).set key (path,exportCheckpoint t.session.transcript t.follower)
        else p.checkpoints.erase key
      | some _,none => p.checkpoints.erase key
      | none,_ => if retainCheckpoint then p.checkpoints else p.checkpoints.erase key
    tailers := p.tailers.erase key
    paths := p.paths.erase key
    pending := p.pending.filter (· ≠ key)}

def captureInitialCheckpoint (o : Options κ ρ ε) (look : Option File) (key : κ) (s : Session κ) (p : Pool κ ρ ε) :
    Pool κ ρ ε :=
  if !supportsTailing s || look.isNone then {p with checkpoints := p.checkpoints.erase key}
  else {p with
    checkpoints := (p.checkpoints.erase key).set key
      (s.transcript,exportCheckpoint s.transcript (initializeFollower o.reader.bounds false look))}

def hasUnreadData (look : Option File) (f : Follower ρ) : Bool :=
  f.records ≠ [] || (look.map fun file => decide (f.offset < file.content.length)).getD false

-- The bounded polls of one tailer; the flag asks for more at the next refresh.
def pollTailer (o : Options κ ρ ε) (key : κ) (looks : Nat → Option File) :
    Nat → Nat → Tailer κ ρ → Tailer κ ρ × List (Delivery κ ρ ε) × Bool
  | 0,_,t => (t,[],true)
  | steps+1,i,t =>
    match poll o.reader (looks (2 * i + 1)) t.follower with
    | (f,none) => ({t with follower := f},[],false)
    | (f,some records) =>
      let sent := records.map fun record => (⟨key,record,o.normalize t.session record⟩ : Delivery κ ρ ε)
      if sent.all (·.events.isEmpty) && !hasUnreadData (looks (2 * i + 2)) f then ({t with follower := f},sent,false)
      else
        let later := pollTailer o key looks steps (i + 1) {t with follower := f}
        (later.1,sent ++ later.2.1,later.2.2)

def discard (key : κ) (p : Pool κ ρ ε) : Pool κ ρ ε := {p with pending := p.pending.filter (· ≠ key)}

def mark (more : Bool) (key : κ) (p : Pool κ ρ ε) : Pool κ ρ ε :=
  if more then {p with pending := if key ∈ p.pending then p.pending else p.pending ++ [key]} else discard key p

def pollKey (o : Options κ ρ ε) (e : Refresh κ) (key : κ) (p : Pool κ ρ ε) : Pool κ ρ ε :=
  match p.tailers.get key with
  | none => discard key p
  | some t =>
    let polled := pollTailer o key (e.files t.session.transcript) o.maxEventPolls 0 t
    mark polled.2.2 key {p with tailers := p.tailers.set key polled.1,published := p.published ++ polled.2.1}

def openTailer (o : Options κ ρ ε) (e : Refresh κ) (newSession : Bool) (key : κ) (s : Session κ) (p : Pool κ ρ ε) :
    Pool κ ρ ε :=
  let fresh := initializeFollower o.reader.bounds (newSession && !e.initial) (e.files s.transcript 0)
  let follower := match p.checkpoints.get key with
    | some (path,checkpoint) =>
      if path = s.transcript then restoreCheckpoint o.reader.bounds s.transcript checkpoint fresh else fresh
    | none => fresh
  {p with
    checkpoints := p.checkpoints.erase key
    tailers := p.tailers.set key ⟨s,follower⟩
    paths := p.paths.set key s.transcript}

def attach (o : Options κ ρ ε) (e : Refresh κ) (newSession : Bool) (key : κ) (s : Session κ) (p : Pool κ ρ ε) :
    Pool κ ρ ε :=
  let p := if (p.tailers.get key).isSome && p.paths.get key ≠ some s.transcript then drop false key p else p
  match p.tailers.get key with
  | some t => {p with tailers := p.tailers.set key {t with session := s}}
  | none => openTailer o e newSession key s p

def update (o : Options κ ρ ε) (e : Refresh κ) (newSession : Bool) (key : κ) (s : Session κ) (p : Pool κ ρ ε) :
    Pool κ ρ ε :=
  if !shouldTail o e.now s then
    if e.initial then captureInitialCheckpoint o (e.files s.transcript 0) key s p else drop true key p
  else
    let p := attach o e newSession key s p
    if e.initial then p else pollKey o e key p

def currentOf (e : Refresh κ) : Dict κ (Session κ) := e.sessions.foldl (fun current s => current.set s.key s) .empty

def expire (o : Options κ ρ ε) (e : Refresh κ) (key : κ) (p : Pool κ ρ ε) : Pool κ ρ ε :=
  match (currentOf e).get key with
  | none => drop false key p
  | some s => if shouldTail o e.now s then p else drop true key p

def updateAt (o : Options κ ρ ε) (e : Refresh κ) (known : List κ) (key : κ) (p : Pool κ ρ ε) : Pool κ ρ ε :=
  match (currentOf e).get key with
  | none => p
  | some s => update o e (key ∉ known) key s p

-- The keys of a set come in some order; those of a sorted one in theirs.
def dropRemoved (e : Refresh κ) (p : Pool κ ρ ε) : Pool κ ρ ε :=
  (p.knownKeys.filter (· ∉ (currentOf e).keys)).foldl (fun p key => drop false key p) p

def expireStale (o : Options κ ρ ε) (e : Refresh κ) (p : Pool κ ρ ε) : Pool κ ρ ε :=
  p.tailers.keys.foldl (fun p key => expire o e key p) p

def changedOf (e : Refresh κ) : List κ := (currentOf e).keys.filter (· ∈ e.changed)

section Refreshed
variable [LinearOrder κ]

def updateChanged (o : Options κ ρ ε) (e : Refresh κ) (known : List κ) (p : Pool κ ρ ε) : Pool κ ρ ε :=
  ((changedOf e).insertionSort (· ≤ ·)).foldl (fun p key => updateAt o e known key p) p

def pollPending (o : Options κ ρ ε) (e : Refresh κ) (p : Pool κ ρ ε) : Pool κ ρ ε :=
  ((p.pending.filter (· ∉ changedOf e)).dedup.insertionSort (· ≤ ·)).foldl (fun p key => pollKey o e key p) p

-- What refresh answers, whether anything happened, only sets the daemon's interval.
def refresh (o : Options κ ρ ε) (p : Pool κ ρ ε) (e : Refresh κ) : Pool κ ρ ε :=
  {pollPending o e (updateChanged o e p.knownKeys (expireStale o e (dropRemoved e p))) with
    knownKeys := (currentOf e).keys}

def refreshAll (o : Options κ ρ ε) (p : Pool κ ρ ε) (events : List (Refresh κ)) : Pool κ ρ ε :=
  events.foldl (refresh o) p

end Refreshed
end Keyed
end AgentSideCar.Tail
