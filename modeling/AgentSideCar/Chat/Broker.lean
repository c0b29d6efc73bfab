import AgentSideCar.Library.Dict
import AgentSideCar.Library.Runs
import Mathlib.Logic.Function.Basic

namespace AgentSideCar.Chat
open Runs
variable {ν ι τ : Type}

-- The path of a store, and the signature of its database and log.
abbrev SnapshotCacheKey (ν : Type) := String × ν

def maxDbBytes : Nat := 64 * 1024 * 1024
def maxWalBytes : Nat := 256 * 1024 * 1024

-- The bounds of a broker, as its constructor accepts them.
structure Bounds where
  maxEntries : Nat
  hardMaxEntries : Nat
  maxCacheBytes : Nat
  hardMaxCacheBytes : Nat
  maxEntryBytes : Nat
  ttl : Nat
  maxInFlight : Nat
  maxInFlightSourceBytes : Nat
  positive : 0 < maxEntries ∧ 0 < maxCacheBytes ∧ 0 < maxEntryBytes ∧ 0 < ttl ∧ 0 < maxInFlight ∧
    0 < maxInFlightSourceBytes
  covered : maxEntries ≤ hardMaxEntries ∧ maxCacheBytes ≤ hardMaxCacheBytes ∧ maxEntryBytes ≤ hardMaxCacheBytes

def Bounds.sourceReservationBytes (l : Bounds) : Nat := min (maxDbBytes + maxWalBytes) l.maxInFlightSourceBytes

-- A decoded state is known by the call that loaded it.
structure CacheEntry (ι : Type) where
  state : ι
  expiresAt : Int
  generation : Nat
  weightBytes : Nat
  deriving DecidableEq

structure Flight (ι : Type) where
  leader : ι
  sourceBytes : Nat
  deriving DecidableEq

structure Stats where
  signatureChecks : Nat := 0
  cacheHits : Nat := 0
  cacheMisses : Nat := 0
  snapshotLoads : Nat := 0
  coalescedWaits : Nat := 0
  evictions : Nat := 0
  expirations : Nat := 0
  errors : Nat := 0
  peakCacheBytes : Nat := 0
  oversizedStates : Nat := 0
  peakInFlightSourceBytes : Nat := 0
  budgetWaits : Nat := 0

structure Broker (ν ι : Type) where
  entries : Dict (SnapshotCacheKey ν) (CacheEntry ι) := .empty
  flights : Dict (Nat × SnapshotCacheKey ν) (Flight ι) := .empty
  generation : Nat := 0
  scanDepth : Nat := 0
  cacheBytes : Nat := 0
  inFlightSourceBytes : Nat := 0
  stats : Stats := {}

namespace Broker
variable [DecidableEq ν]

def removeEntry (b : Broker ν ι) (key : SnapshotCacheKey ν) : Broker ν ι :=
  match b.entries.get key with
  | none => b
  | some entry => {b with entries := b.entries.erase key,cacheBytes := b.cacheBytes - entry.weightBytes}

-- An active scan pins what it has used.
def pins (b : Broker ν ι) (entry : CacheEntry ι) : Bool := 0 < b.scanDepth && entry.generation = b.generation

def expire (b : Broker ν ι) (now : Int) : Broker ν ι :=
  let expired := (b.entries.entries.filter fun e => e.2.expiresAt ≤ now && !b.pins e.2).map Prod.fst
  let b := expired.foldl removeEntry b
  {b with stats := {b.stats with expirations := b.stats.expirations + expired.length}}

def overSoft (l : Bounds) (b : Broker ν ι) : Bool := l.maxEntries < b.entries.size || l.maxCacheBytes < b.cacheBytes

def evict (b : Broker ν ι) (key : SnapshotCacheKey ν) : Broker ν ι :=
  let b := b.removeEntry key
  {b with stats := {b.stats with evictions := b.stats.evictions + 1}}

-- None where a loop would take the oldest entry of an empty cache.
def evictHard (l : Bounds) (weight : Nat) : Nat → Broker ν ι → Option (Broker ν ι)
  | 0,_ => none
  | fuel+1,b =>
    if l.hardMaxEntries < b.entries.size + 1 ∨ l.hardMaxCacheBytes < b.cacheBytes + weight then
      match b.entries.entries with
      | [] => none
      | (oldest,_) :: _ => evictHard l weight fuel (b.evict oldest)
    else some b

-- The eviction after a store, with what it evicts; it ends where only pins are left.
def evictSoft (l : Bounds) : Nat → Broker ν ι → Broker ν ι × List (CacheEntry ι)
  | 0,b => (b,[])
  | fuel+1,b =>
    if b.overSoft l then
      match b.entries.entries.find? fun e => !b.pins e.2 with
      | none => (b,[])
      | some (evictable,entry) =>
        let (b,more) := evictSoft l fuel (b.evict evictable)
        (b,entry :: more)
    else (b,[])

def store (l : Bounds) (key : SnapshotCacheKey ν) (state : ι) (weight : Nat) (now : Int) (generation : Nat) (b : Broker ν ι) :
    Option (Broker ν ι × List (CacheEntry ι)) :=
  if generation ≠ b.generation then some (b,[])
  else
    let b := b.removeEntry key
    if l.maxEntryBytes < weight ∨ l.hardMaxCacheBytes < weight then
      some ({b with stats := {b.stats with oversizedStates := b.stats.oversizedStates + 1}},[])
    else (evictHard l weight (b.entries.size + 1) b).map fun b =>
      let b := {b with
        entries := b.entries.set key ⟨state,now + l.ttl,generation,weight⟩
        cacheBytes := b.cacheBytes + weight
        stats := {b.stats with peakCacheBytes := max b.stats.peakCacheBytes (b.cacheBytes + weight)}}
      evictSoft l b.entries.size b

def trimSoft (l : Bounds) : Nat → Broker ν ι → Option (Broker ν ι × List (CacheEntry ι))
  | 0,_ => none
  | fuel+1,b =>
    if b.overSoft l then
      match b.entries.entries with
      | [] => none
      | (oldest,entry) :: _ => (trimSoft l fuel (b.evict oldest)).map fun (b,more) => (b,entry :: more)
    else some (b,[])

def pinEntry (l : Bounds) (key : SnapshotCacheKey ν) (entry : CacheEntry ι) (now : Int) (b : Broker ν ι) : Broker ν ι :=
  {b with entries := (b.entries.erase key).set key {entry with expiresAt := now + l.ttl,generation := b.generation}}

def cacheHit (l : Bounds) (key : SnapshotCacheKey ν) (entry : CacheEntry ι) (now : Int) (b : Broker ν ι) : Broker ν ι :=
  pinEntry l key entry now {b with stats := {b.stats with cacheHits := b.stats.cacheHits + 1}}

def pin (l : Bounds) (key : SnapshotCacheKey ν) (now : Int) (b : Broker ν ι) : Broker ν ι :=
  let b := b.expire now
  match b.entries.get key with
  | none => b
  | some entry => pinEntry l key entry now b

def enterScan (now : Int) (b : Broker ν ι) : Broker ν ι :=
  let b := if b.scanDepth = 0 then {b with generation := b.generation + 1} else b
  expire {b with scanDepth := b.scanDepth + 1} now

-- No reading of the clock where it fails; the scope is left all the same.
def exitScan (l : Bounds) (now : Option Int) (b : Broker ν ι) : Option (Broker ν ι × List (CacheEntry ι)) :=
  if b.scanDepth = 0 then some (b,[])
  else
    let b := {b with scanDepth := b.scanDepth - 1}
    if b.scanDepth = 0 then
      let b := match now with
        | some now => b.expire now
        | none => b
      trimSoft l (b.entries.size + 1) b
    else some (b,[])

def reset (b : Broker ν ι) : Broker ν ι :=
  {b with
    generation := b.generation + 1
    scanDepth := 0
    entries := .empty
    cacheBytes := 0
    stats := {peakInFlightSourceBytes := b.inFlightSourceBytes}}

section Flights
variable [DecidableEq ι]

def releaseFlight (flightKey : Nat × SnapshotCacheKey ν) (leader : ι) (b : Broker ν ι) : Broker ν ι :=
  match b.flights.get flightKey with
  | none => b
  | some flight =>
    if flight.leader = leader then
      {b with flights := b.flights.erase flightKey,inFlightSourceBytes := b.inFlightSourceBytes - flight.sourceBytes}
    else b

def failFlight (flightKey : Nat × SnapshotCacheKey ν) (leader : ι) (b : Broker ν ι) : Broker ν ι :=
  releaseFlight flightKey leader {b with stats := {b.stats with errors := b.stats.errors + 1}}

-- A failed publication takes back an entry that holds its own state.
def retract (publicationKey : SnapshotCacheKey ν) (leader : ι) (b : Broker ν ι) : Broker ν ι :=
  match b.entries.get publicationKey with
  | none => b
  | some published => if published.state = leader then b.removeEntry publicationKey else b

end Flights
end Broker

-- A call of snapshot: it waits for the in-flight budget, leads a flight or follows one.
inductive Phase (ν ι : Type) where
  | idle
  | waiting (key : SnapshotCacheKey ν) (sourceBytes : Nat)
  | leading (generation : Nat) (key : SnapshotCacheKey ν)
  | following (leader : ι)
  | returned (state : ι)
  | raised

-- An eviction by the soft limits, with the generation and the scopes open then.
structure SoftEviction (ι τ : Type) where
  entry : CacheEntry ι
  generation : Nat
  scopes : List τ

-- `touched` tells whether an eviction loop has met an empty cache.
structure Session (ν ι τ : Type) where
  broker : Broker ν ι
  phase : ι → Phase ν ι
  scopes : List τ
  soft : List (SoftEviction ι τ)
  touched : Bool

-- Readings of the clock, sizes, signatures and weights are what the environment gives.
inductive Event (ν ι τ : Type) where
  | snapshot (i : ι) (key : SnapshotCacheKey ν) (sourceBytes : Nat) (now : Int)
  | wake (i : ι) (now : Option Int)
  | loadFails (i : ι)
  | publish (i : ι) (signature : ν) (weight : Nat) (now : Int)
  | publishFails (i : ι) (signature : ν)
  | resume (i : ι)
  | pin (key : SnapshotCacheKey ν) (now : Int)
  | enter (scope : τ) (now : Int)
  | exit (scope : τ) (now : Option Int)
  | reset

def Session.initial : Session ν ι τ := ⟨{},fun _ => .idle,[],[],false⟩

section Steps
variable [DecidableEq ν] [DecidableEq ι] [DecidableEq τ] (l : Bounds)

-- One round of the reservation loop, after the cache had no answer.
def reserve (i : ι) (key : SnapshotCacheKey ν) (sourceBytes : Nat) (b : Broker ν ι) : Broker ν ι × Phase ν ι :=
  match b.flights.get (b.generation,key) with
  | some flight => ({b with stats := {b.stats with coalescedWaits := b.stats.coalescedWaits + 1}},.following flight.leader)
  | none =>
    if l.sourceReservationBytes < sourceBytes then (b,.raised)
    else if b.flights.size < l.maxInFlight ∧
        b.inFlightSourceBytes + l.sourceReservationBytes ≤ l.maxInFlightSourceBytes then
      ({b with
        flights := b.flights.set (b.generation,key) ⟨i,l.sourceReservationBytes⟩
        inFlightSourceBytes := b.inFlightSourceBytes + l.sourceReservationBytes
        stats := {b.stats with
          peakInFlightSourceBytes := max b.stats.peakInFlightSourceBytes (b.inFlightSourceBytes + l.sourceReservationBytes)
          cacheMisses := b.stats.cacheMisses + 1
          snapshotLoads := b.stats.snapshotLoads + 1}},.leading b.generation key)
    else ({b with stats := {b.stats with budgetWaits := b.stats.budgetWaits + 1}},.waiting key sourceBytes)

def look (i : ι) (key : SnapshotCacheKey ν) (sourceBytes : Nat) (now : Int) (b : Broker ν ι) : Broker ν ι × Phase ν ι :=
  let b := b.expire now
  match b.entries.get key with
  | some cached => (b.cacheHit l key cached now,.returned cached.state)
  | none => reserve l i key sourceBytes b

def Session.put (s : Session ν ι τ) (i : ι) (next : Broker ν ι × Phase ν ι) : Session ν ι τ :=
  {s with broker := next.1,phase := Function.update s.phase i next.2}

-- What an operation that may evict leaves behind.
def Session.settle (s : Session ν ι τ) (scopes : List τ) (result : Option (Broker ν ι × List (CacheEntry ι))) : Session ν ι τ :=
  match result with
  | none => {s with scopes := scopes,touched := true}
  | some (b,evicted) => {s with
      broker := b
      scopes := scopes
      soft := s.soft ++ evicted.map (⟨·,b.generation,scopes⟩)}

def Session.advance (s : Session ν ι τ) : Event ν ι τ → Option (Session ν ι τ)
  | .snapshot i key sourceBytes now =>
    match s.phase i with
    | .idle =>
      let checked := {s.broker with stats := {s.broker.stats with signatureChecks := s.broker.stats.signatureChecks + 1}}
      some (s.put i (look l i key sourceBytes now checked))
    | _ => none
  | .wake i now =>
    match s.phase i,now with
    | .waiting key sourceBytes,some now => some (s.put i (look l i key sourceBytes now s.broker))
    | .waiting _ _,none => some (s.put i (s.broker,.raised))
    | _,_ => none
  | .loadFails i =>
    match s.phase i with
    | .leading generation key => some (s.put i (s.broker.failFlight (generation,key) i,.raised))
    | _ => none
  | .publish i signature weight now =>
    match s.phase i with
    | .leading generation key =>
      let stored := (s.broker.store l (key.1,signature) i weight now generation).map fun (b,evicted) =>
        (b.releaseFlight (generation,key) i,evicted)
      some ((s.put i (s.broker,.returned i)).settle s.scopes stored)
    | _ => none
  | .publishFails i signature =>
    match s.phase i with
    | .leading generation key =>
      some (s.put i ((s.broker.retract (key.1,signature) i).failFlight (generation,key) i,.raised))
    | _ => none
  | .resume i =>
    match s.phase i with
    | .following leader =>
      match s.phase leader with
      | .returned state => some (s.put i (s.broker,.returned state))
      | .raised => some (s.put i (s.broker,.raised))
      | _ => none
    | _ => none
  | .pin key now => some {s with broker := s.broker.pin l key now}
  | .enter scope now =>
    if scope ∈ s.scopes then none else some {s with broker := s.broker.enterScan now,scopes := s.scopes ++ [scope]}
  | .exit scope now =>
    if scope ∈ s.scopes then some (s.settle (s.scopes.erase scope) (s.broker.exitScan l now)) else none
  | .reset => some {s with broker := s.broker.reset}

end Steps

-- No reset while a scan scope is open.
def Undisturbed (s : Session ν ι τ) : Event ν ι τ → Prop
  | .reset => s.scopes = []
  | _ => True

-- The counters are those of what is held, and what is held is within the hard bounds.
structure Budgets (l : Bounds) (b : Broker ν ι) : Prop where
  cache : b.cacheBytes = b.entries.weigh CacheEntry.weightBytes
  flying : b.inFlightSourceBytes = b.flights.weigh Flight.sourceBytes
  entries : b.entries.size ≤ l.hardMaxEntries
  bytes : b.cacheBytes ≤ l.hardMaxCacheBytes
  flights : b.flights.size ≤ l.maxInFlight
  sources : b.inFlightSourceBytes ≤ l.maxInFlightSourceBytes

-- What no change of the entries touches.
structure Kin (b after : Broker ν ι) : Prop where
  generation : after.generation = b.generation
  scanDepth : after.scanDepth = b.scanDepth
  flights : after.flights = b.flights
  inFlight : after.inFlightSourceBytes = b.inFlightSourceBytes

theorem Kin.refl (b : Broker ν ι) : Kin b b := ⟨rfl,rfl,rfl,rfl⟩

theorem Kin.trans {a b c : Broker ν ι} (first : Kin a b) (second : Kin b c) : Kin a c :=
  ⟨second.generation.trans first.generation,second.scanDepth.trans first.scanDepth,second.flights.trans first.flights,
    second.inFlight.trans first.inFlight⟩

theorem Kin.pins {b after : Broker ν ι} (kin : Kin b after) (entry : CacheEntry ι) : after.pins entry = b.pins entry := by
  rw [Broker.pins,Broker.pins,kin.generation,kin.scanDepth]

variable {l : Bounds} {b : Broker ν ι}

-- What every step keeps.
structure Sound (l : Bounds) (s : Session ν ι τ) : Prop where
  budgets : Budgets l s.broker
  untouched : s.touched = false

-- While no reset disturbs a scan, the depth counts the open scopes, and no entry that
-- their generation has used was evicted by the soft limits.
structure Spared (s : Session ν ι τ) : Prop where
  depth : s.broker.scanDepth = s.scopes.length
  spared : ∀ eviction ∈ s.soft, eviction.scopes ≠ [] → eviction.entry.generation ≠ eviction.generation

section Sessions
variable {s : Session ν ι τ}

theorem Session.settle_sound (sound : Sound l s) (scopes : List τ) (found : result = some (after,evicted))
    (budgets : Budgets l after) : Sound l (s.settle scopes result) := by
  subst found
  exact ⟨budgets,sound.untouched⟩

theorem Session.settle_spared (spared : Spared s) (scopes : List τ) (found : result = some (after,evicted))
    (depth : after.scanDepth = scopes.length) (fresh : ∀ entry ∈ evicted, scopes ≠ [] → entry.generation ≠ after.generation) :
    Spared (s.settle scopes result) := by
  subst found
  refine ⟨depth,fun eviction inside => ?_⟩
  rcases List.mem_append.mp inside with old | new
  · exact spared.spared eviction old
  · obtain ⟨entry,held,rfl⟩ := List.mem_map.mp new
    exact fresh entry held

variable [DecidableEq ι]

theorem Session.put_sound (sound : Sound l s) (i : ι) (budgets : Budgets l next.1) : Sound l (s.put i next) :=
  ⟨budgets,sound.untouched⟩

theorem Session.put_spared (spared : Spared s) (i : ι) (depth : next.1.scanDepth = s.broker.scanDepth) : Spared (s.put i next) :=
  ⟨depth.trans spared.depth,spared.spared⟩

end Sessions

namespace Broker

theorem empty_cache (budgets : Budgets l b) (none' : b.entries.entries = []) : b.entries.size = 0 ∧ b.cacheBytes = 0 := by
  rw [budgets.cache]
  simp [Dict.size,Dict.weigh,none']

theorem reset_budgets (budgets : Budgets l b) : Budgets l b.reset :=
  ⟨rfl,budgets.flying,Nat.zero_le _,Nat.zero_le _,budgets.flights,budgets.sources⟩

variable [DecidableEq ν]

theorem removeEntry_kin (b : Broker ν ι) (key : SnapshotCacheKey ν) : Kin b (b.removeEntry key) := by
  unfold removeEntry
  split <;> exact ⟨rfl,rfl,rfl,rfl⟩

theorem removeEntry_get (b : Broker ν ι) (key other : SnapshotCacheKey ν) :
    (b.removeEntry key).entries.get other = if other = key then none else b.entries.get other := by
  unfold removeEntry
  cases found : b.entries.get key with
  | none =>
    simp only
    split
    · rename_i same
      rw [same,found]
    · rfl
  | some entry => exact Dict.get_erase _

theorem removeEntry_budgets (budgets : Budgets l b) (key : SnapshotCacheKey ν) : Budgets l (b.removeEntry key) := by
  unfold removeEntry
  cases found : b.entries.get key with
  | none => exact budgets
  | some entry =>
    have weight := b.entries.weigh_erase CacheEntry.weightBytes found
    have size := b.entries.size_erase found
    have cache := budgets.cache
    have entries := budgets.entries
    have bytes := budgets.bytes
    exact ⟨by simp only; omega,budgets.flying,by simp only; omega,by simp only; omega,budgets.flights,budgets.sources⟩

theorem removeEntry_size {key : SnapshotCacheKey ν} {entry : CacheEntry ι} (found : b.entries.get key = some entry) :
    (b.removeEntry key).entries.size + 1 = b.entries.size := by
  rw [removeEntry,found]
  exact b.entries.size_erase found

theorem removeAll_budgets (keys : List (SnapshotCacheKey ν)) (b : Broker ν ι) (budgets : Budgets l b) :
    Budgets l (keys.foldl removeEntry b) ∧ Kin b (keys.foldl removeEntry b) := by
  induction keys generalizing b with
  | nil => exact ⟨budgets,.refl b⟩
  | cons key rest ih =>
    obtain ⟨later,kin⟩ := ih (b.removeEntry key) (removeEntry_budgets budgets key)
    exact ⟨later,(removeEntry_kin b key).trans kin⟩

theorem expire_budgets (budgets : Budgets l b) (now : Int) : Budgets l (b.expire now) ∧ Kin b (b.expire now) := by
  obtain ⟨removed,kin⟩ := removeAll_budgets
    ((b.entries.entries.filter fun e => e.2.expiresAt ≤ now && !b.pins e.2).map Prod.fst) b budgets
  exact ⟨⟨removed.cache,removed.flying,removed.entries,removed.bytes,removed.flights,removed.sources⟩,
    ⟨kin.generation,kin.scanDepth,kin.flights,kin.inFlight⟩⟩

theorem evict_budgets (budgets : Budgets l b) (key : SnapshotCacheKey ν) : Budgets l (b.evict key) ∧ Kin b (b.evict key) := by
  have removed := removeEntry_budgets budgets key
  have kin := removeEntry_kin b key
  exact ⟨⟨removed.cache,removed.flying,removed.entries,removed.bytes,removed.flights,removed.sources⟩,
    ⟨kin.generation,kin.scanDepth,kin.flights,kin.inFlight⟩⟩

theorem evict_size (b : Broker ν ι) (key : SnapshotCacheKey ν) (entry : CacheEntry ι) (inside : (key,entry) ∈ b.entries.entries) :
    (b.evict key).entries.size + 1 = b.entries.size :=
  removeEntry_size ((Dict.get_iff _).mpr inside)

theorem evictHard_exact (weight fuel : Nat) (b : Broker ν ι) (budgets : Budgets l b) (fits : weight ≤ l.hardMaxCacheBytes)
    (enough : b.entries.size < fuel) : ∃ after, evictHard l weight fuel b = some after ∧ Budgets l after ∧ Kin b after ∧
      after.entries.size + 1 ≤ l.hardMaxEntries ∧ after.cacheBytes + weight ≤ l.hardMaxCacheBytes ∧
      ∀ key, b.entries.get key = none → after.entries.get key = none := by
  induction fuel generalizing b with
  | zero => omega
  | succ fuel ih =>
    rw [evictHard]
    split
    · rename_i exceeded
      cases held : b.entries.entries with
      | nil =>
        obtain ⟨size,bytes⟩ := empty_cache budgets held
        have := l.covered
        have := l.positive
        omega
      | cons first rest =>
        obtain ⟨oldest,entry⟩ := first
        have smaller := evict_size b oldest entry (by rw [held]; exact List.mem_cons_self)
        obtain ⟨evicted,kin⟩ := evict_budgets budgets oldest
        obtain ⟨after,found,later,more,count,bytes,absent⟩ := ih (b.evict oldest) evicted (by omega)
        refine ⟨after,found,later,kin.trans more,count,bytes,fun key none' => absent key ?_⟩
        rw [show (b.evict oldest).entries = (b.removeEntry oldest).entries from rfl,removeEntry_get,none',ite_self]
    · rename_i room
      exact ⟨b,rfl,budgets,.refl b,by omega,by omega,fun _ absent => absent⟩

theorem evictSoft_exact (fuel : Nat) (b : Broker ν ι) (budgets : Budgets l b) :
    Budgets l (evictSoft l fuel b).1 ∧ Kin b (evictSoft l fuel b).1 ∧ ∀ entry ∈ (evictSoft l fuel b).2, b.pins entry = false := by
  induction fuel generalizing b with
  | zero => exact ⟨budgets,.refl b,by simp [evictSoft]⟩
  | succ fuel ih =>
    rw [evictSoft]
    split
    · cases found : b.entries.entries.find? fun e => !b.pins e.2 with
      | none => exact ⟨budgets,.refl b,by simp⟩
      | some e =>
        obtain ⟨key,entry⟩ := e
        obtain ⟨evicted,kin⟩ := evict_budgets budgets key
        obtain ⟨later,more,spared⟩ := ih (b.evict key) evicted
        refine ⟨later,kin.trans more,fun other inside => ?_⟩
        rcases List.mem_cons.mp inside with same | inside
        · rw [same]
          simpa using List.find?_some found
        · rw [← kin.pins]
          exact spared other inside
    · exact ⟨budgets,.refl b,by simp⟩

theorem trimSoft_exact (fuel : Nat) (b : Broker ν ι) (budgets : Budgets l b) (enough : b.entries.size < fuel) :
    ∃ after evicted, trimSoft l fuel b = some (after,evicted) ∧ Budgets l after ∧ Kin b after := by
  induction fuel generalizing b with
  | zero => omega
  | succ fuel ih =>
    rw [trimSoft]
    split
    · rename_i exceeded
      cases held : b.entries.entries with
      | nil =>
        obtain ⟨size,bytes⟩ := empty_cache budgets held
        simp only [overSoft,size,bytes,Bool.or_eq_true,decide_eq_true_eq] at exceeded
        omega
      | cons first rest =>
        obtain ⟨oldest,entry⟩ := first
        have smaller := evict_size b oldest entry (by rw [held]; exact List.mem_cons_self)
        obtain ⟨evicted,kin⟩ := evict_budgets budgets oldest
        obtain ⟨after,more,found,later,same⟩ := ih (b.evict oldest) evicted (by omega)
        exact ⟨after,entry :: more,by simp only [found,Option.map_some],later,kin.trans same⟩
    · exact ⟨b,[],rfl,budgets,.refl b⟩

theorem store_exact (budgets : Budgets l b) (key : SnapshotCacheKey ν) (state : ι) (weight : Nat) (now : Int) (generation : Nat) :
    ∃ after evicted, store l key state weight now generation b = some (after,evicted) ∧ Budgets l after ∧ Kin b after ∧
      ∀ entry ∈ evicted, b.pins entry = false := by
  rw [store]
  split
  · exact ⟨b,[],rfl,budgets,.refl b,by simp⟩
  · have removed := removeEntry_budgets budgets key
    have kin := removeEntry_kin b key
    simp only
    split
    · exact ⟨_,[],rfl,⟨removed.cache,removed.flying,removed.entries,removed.bytes,removed.flights,removed.sources⟩,
        ⟨kin.generation,kin.scanDepth,kin.flights,kin.inFlight⟩,by simp⟩
    · rename_i fits
      obtain ⟨room,found,held,same,count,bytes,absent⟩ := evictHard_exact weight _ (b.removeEntry key) removed (by omega)
        (Nat.lt_succ_self _)
      have gone : room.entries.get key = none := absent key (by rw [removeEntry_get,if_pos rfl])
      have weighed := Dict.weigh_set room.entries gone ⟨state,now + l.ttl,generation,weight⟩ CacheEntry.weightBytes
      have size := Dict.size_set room.entries gone ⟨state,now + l.ttl,generation,weight⟩
      have placed : Budgets l {room with
          entries := room.entries.set key ⟨state,now + l.ttl,generation,weight⟩
          cacheBytes := room.cacheBytes + weight
          stats := {room.stats with peakCacheBytes := max room.stats.peakCacheBytes (room.cacheBytes + weight)}} := by
        have cache := held.cache
        exact ⟨by simp only [weighed,cache],held.flying,by simp only [size]; omega,bytes,held.flights,held.sources⟩
      obtain ⟨after,more,spared⟩ := evictSoft_exact (room.entries.set key ⟨state,now + l.ttl,generation,weight⟩).size _ placed
      have path : Kin b room := kin.trans same
      refine ⟨_,_,by rw [found]; rfl,after,path.trans ⟨more.generation,more.scanDepth,more.flights,more.inFlight⟩,
        fun entry inside => ?_⟩
      rw [← path.pins]
      exact spared entry inside

theorem pinEntry_budgets (budgets : Budgets l b) (found : b.entries.get key = some entry) (now : Int) :
    Budgets l (pinEntry l key entry now b) ∧ Kin b (pinEntry l key entry now b) := by
  have gone : (b.entries.erase key).get key = none := by rw [Dict.get_erase,if_pos rfl]
  have weight := b.entries.weigh_erase CacheEntry.weightBytes found
  have size := b.entries.size_erase found
  have weighed := Dict.weigh_set (b.entries.erase key) gone
    {entry with expiresAt := now + l.ttl,generation := b.generation} CacheEntry.weightBytes
  have sized := Dict.size_set (b.entries.erase key) gone {entry with expiresAt := now + l.ttl,generation := b.generation}
  have cache := budgets.cache
  have entries := budgets.entries
  refine ⟨⟨?_,budgets.flying,?_,budgets.bytes,budgets.flights,budgets.sources⟩,⟨rfl,rfl,rfl,rfl⟩⟩
  · rw [pinEntry]
    simp only at weighed ⊢
    rw [weighed,weight]
    exact cache
  · rw [pinEntry]
    simp only at sized ⊢
    omega

theorem pin_budgets (budgets : Budgets l b) (key : SnapshotCacheKey ν) (now : Int) :
    Budgets l (pin l key now b) ∧ Kin b (pin l key now b) := by
  obtain ⟨expired,kin⟩ := expire_budgets budgets now
  rw [pin]
  cases found : (b.expire now).entries.get key with
  | none =>
    exact ⟨expired,kin⟩
  | some entry =>
    obtain ⟨pinned,same⟩ := pinEntry_budgets expired found now
    exact ⟨pinned,kin.trans same⟩

theorem enterScan_budgets (budgets : Budgets l b) (now : Int) :
    Budgets l (enterScan now b) ∧ (enterScan now b).scanDepth = b.scanDepth + 1 := by
  rw [enterScan]
  split
  · obtain ⟨expired,kin⟩ := expire_budgets (b := {b with generation := b.generation + 1,scanDepth := b.scanDepth + 1})
      (l := l) ⟨budgets.cache,budgets.flying,budgets.entries,budgets.bytes,budgets.flights,budgets.sources⟩ now
    exact ⟨expired,kin.scanDepth⟩
  · obtain ⟨expired,kin⟩ := expire_budgets (b := {b with scanDepth := b.scanDepth + 1})
      (l := l) ⟨budgets.cache,budgets.flying,budgets.entries,budgets.bytes,budgets.flights,budgets.sources⟩ now
    exact ⟨expired,kin.scanDepth⟩

theorem exitScan_exact (budgets : Budgets l b) (now : Option Int) :
    ∃ after evicted, exitScan l now b = some (after,evicted) ∧ Budgets l after ∧ after.scanDepth = b.scanDepth - 1 ∧
      (evicted ≠ [] → after.scanDepth = 0) := by
  rw [exitScan]
  split
  · rename_i closed
    exact ⟨b,[],rfl,budgets,by omega,by simp⟩
  · have left : Budgets l {b with scanDepth := b.scanDepth - 1} :=
      ⟨budgets.cache,budgets.flying,budgets.entries,budgets.bytes,budgets.flights,budgets.sources⟩
    simp only
    split
    · rename_i last
      cases now with
      | none =>
        obtain ⟨after,evicted,found,later,kin⟩ := trimSoft_exact _ _ left (Nat.lt_succ_self _)
        exact ⟨after,evicted,found,later,kin.scanDepth,fun _ => kin.scanDepth.trans last⟩
      | some now =>
        obtain ⟨expired,same⟩ := expire_budgets left now
        obtain ⟨after,evicted,found,later,kin⟩ := trimSoft_exact _ _ expired (Nat.lt_succ_self _)
        exact ⟨after,evicted,found,later,kin.scanDepth.trans same.scanDepth,
          fun _ => (kin.scanDepth.trans same.scanDepth).trans last⟩
    · exact ⟨_,[],rfl,left,rfl,by simp⟩

section Flights
variable [DecidableEq ι]

theorem releaseFlight_budgets (budgets : Budgets l b) (flightKey : Nat × SnapshotCacheKey ν) (leader : ι) :
    Budgets l (releaseFlight flightKey leader b) ∧ (releaseFlight flightKey leader b).scanDepth = b.scanDepth ∧
      (releaseFlight flightKey leader b).generation = b.generation := by
  unfold releaseFlight
  cases found : b.flights.get flightKey with
  | none => exact ⟨budgets,rfl,rfl⟩
  | some flight =>
    simp only
    split
    · have weight := b.flights.weigh_erase Flight.sourceBytes found
      have size := b.flights.size_erase found
      have flying := budgets.flying
      have flights := budgets.flights
      have sources := budgets.sources
      exact ⟨⟨budgets.cache,by simp only; omega,budgets.entries,budgets.bytes,by simp only; omega,by simp only; omega⟩,rfl,rfl⟩
    · exact ⟨budgets,rfl,rfl⟩

theorem failFlight_budgets (budgets : Budgets l b) (flightKey : Nat × SnapshotCacheKey ν) (leader : ι) :
    Budgets l (failFlight flightKey leader b) ∧ (failFlight flightKey leader b).scanDepth = b.scanDepth := by
  have counted : Budgets l {b with stats := {b.stats with errors := b.stats.errors + 1}} :=
    ⟨budgets.cache,budgets.flying,budgets.entries,budgets.bytes,budgets.flights,budgets.sources⟩
  obtain ⟨released,depth,_⟩ := releaseFlight_budgets counted flightKey leader
  exact ⟨released,depth⟩

theorem retract_budgets (budgets : Budgets l b) (publicationKey : SnapshotCacheKey ν) (leader : ι) :
    Budgets l (retract publicationKey leader b) ∧ (retract publicationKey leader b).scanDepth = b.scanDepth := by
  unfold retract
  split
  · exact ⟨budgets,rfl⟩
  · split
    · exact ⟨removeEntry_budgets budgets publicationKey,(removeEntry_kin b publicationKey).scanDepth⟩
    · exact ⟨budgets,rfl⟩

end Flights
end Broker

variable [DecidableEq ν]

theorem reserve_budgets (budgets : Budgets l b) (i : ι) (key : SnapshotCacheKey ν) (sourceBytes : Nat) :
    Budgets l (reserve l i key sourceBytes b).1 ∧ (reserve l i key sourceBytes b).1.scanDepth = b.scanDepth := by
  unfold reserve
  cases found : b.flights.get (b.generation,key) with
  | some flight => exact ⟨⟨budgets.cache,budgets.flying,budgets.entries,budgets.bytes,budgets.flights,budgets.sources⟩,rfl⟩
  | none =>
    simp only
    split
    · exact ⟨budgets,rfl⟩
    · split
      · rename_i room
        have weighed := Dict.weigh_set b.flights found ⟨i,l.sourceReservationBytes⟩ Flight.sourceBytes
        have sized := Dict.size_set b.flights found ⟨i,l.sourceReservationBytes⟩
        have flying := budgets.flying
        exact ⟨⟨budgets.cache,by simp only [weighed,flying],budgets.entries,budgets.bytes,by simp only [sized]; omega,room.2⟩,rfl⟩
      · exact ⟨⟨budgets.cache,budgets.flying,budgets.entries,budgets.bytes,budgets.flights,budgets.sources⟩,rfl⟩

theorem look_budgets (budgets : Budgets l b) (i : ι) (key : SnapshotCacheKey ν) (sourceBytes : Nat) (now : Int) :
    Budgets l (look l i key sourceBytes now b).1 ∧ (look l i key sourceBytes now b).1.scanDepth = b.scanDepth := by
  obtain ⟨expired,kin⟩ := Broker.expire_budgets budgets now
  unfold look
  simp only
  cases found : (b.expire now).entries.get key with
  | none =>
    obtain ⟨reserved,depth⟩ := reserve_budgets expired i key sourceBytes
    exact ⟨reserved,depth.trans kin.scanDepth⟩
  | some cached =>
    have counted : Budgets l {b.expire now with stats := {(b.expire now).stats with cacheHits := (b.expire now).stats.cacheHits + 1}} :=
      ⟨expired.cache,expired.flying,expired.entries,expired.bytes,expired.flights,expired.sources⟩
    obtain ⟨pinned,same⟩ := Broker.pinEntry_budgets counted found now
    exact ⟨pinned,same.scanDepth.trans kin.scanDepth⟩

section Steps
variable [DecidableEq ι] [DecidableEq τ] {s t : Session ν ι τ}

theorem step_sound (sound : Sound l s) (stepped : s.advance l event = some t) : Sound l t := by
  have budgets := sound.budgets
  cases event with
  | snapshot i key sourceBytes now =>
    simp only [Session.advance] at stepped
    split at stepped
    · cases stepped
      have checked : Budgets l {s.broker with stats := {s.broker.stats with signatureChecks := s.broker.stats.signatureChecks + 1}} :=
        ⟨budgets.cache,budgets.flying,budgets.entries,budgets.bytes,budgets.flights,budgets.sources⟩
      exact s.put_sound sound i (look_budgets checked i key sourceBytes now).1
    · cases stepped
  | wake i now =>
    simp only [Session.advance] at stepped
    split at stepped
    · cases stepped
      exact s.put_sound sound i (look_budgets budgets i _ _ _).1
    · cases stepped
      exact s.put_sound sound i budgets
    · cases stepped
  | loadFails i =>
    simp only [Session.advance] at stepped
    split at stepped
    · cases stepped
      exact s.put_sound sound i (Broker.failFlight_budgets budgets _ i).1
    · cases stepped
  | publish i signature weight now =>
    simp only [Session.advance] at stepped
    split at stepped
    · rename_i generation key _
      cases stepped
      obtain ⟨after,evicted,stored,later,_,_⟩ := Broker.store_exact budgets (key.1,signature) i weight now generation
      have published := (Broker.releaseFlight_budgets later (generation,key) i).1
      exact (s.put i _).settle_sound (s.put_sound sound i budgets) s.scopes (by rw [stored]; rfl) published
    · cases stepped
  | publishFails i signature =>
    simp only [Session.advance] at stepped
    split at stepped
    · cases stepped
      exact s.put_sound sound i (Broker.failFlight_budgets (Broker.retract_budgets budgets _ i).1 _ i).1
    · cases stepped
  | resume i =>
    simp only [Session.advance] at stepped
    split at stepped
    · split at stepped
      · cases stepped
        exact s.put_sound sound i budgets
      · cases stepped
        exact s.put_sound sound i budgets
      · cases stepped
    · cases stepped
  | pin key now =>
    cases stepped
    exact ⟨(Broker.pin_budgets budgets key now).1,sound.untouched⟩
  | enter scope now =>
    simp only [Session.advance] at stepped
    split at stepped
    · cases stepped
    · cases stepped
      exact ⟨(Broker.enterScan_budgets budgets now).1,sound.untouched⟩
  | exit scope now =>
    simp only [Session.advance] at stepped
    split at stepped
    · cases stepped
      obtain ⟨after,evicted,left,later,_,_⟩ := Broker.exitScan_exact budgets now
      exact s.settle_sound sound _ left later
    · cases stepped
  | reset =>
    cases stepped
    exact ⟨Broker.reset_budgets budgets,sound.untouched⟩

theorem step_spared (sound : Sound l s) (spared : Spared s) (calm : Undisturbed s event) (stepped : s.advance l event = some t) :
    Spared t := by
  have budgets := sound.budgets
  cases event with
  | snapshot i key sourceBytes now =>
    simp only [Session.advance] at stepped
    split at stepped
    · cases stepped
      have checked : Budgets l {s.broker with stats := {s.broker.stats with signatureChecks := s.broker.stats.signatureChecks + 1}} :=
        ⟨budgets.cache,budgets.flying,budgets.entries,budgets.bytes,budgets.flights,budgets.sources⟩
      exact s.put_spared spared i (look_budgets checked i key sourceBytes now).2
    · cases stepped
  | wake i now =>
    simp only [Session.advance] at stepped
    split at stepped
    · cases stepped
      exact s.put_spared spared i (look_budgets budgets i _ _ _).2
    · cases stepped
      exact s.put_spared spared i rfl
    · cases stepped
  | loadFails i =>
    simp only [Session.advance] at stepped
    split at stepped
    · cases stepped
      exact s.put_spared spared i (Broker.failFlight_budgets budgets _ i).2
    · cases stepped
  | publish i signature weight now =>
    simp only [Session.advance] at stepped
    split at stepped
    · rename_i generation key _
      cases stepped
      obtain ⟨after,evicted,stored,later,kin,unpinned⟩ := Broker.store_exact budgets (key.1,signature) i weight now generation
      obtain ⟨_,depth,same⟩ := Broker.releaseFlight_budgets later (generation,key) i
      refine (s.put i _).settle_spared (s.put_spared spared i rfl) s.scopes (by rw [stored]; rfl) ?_ fun entry inside open' => ?_
      · rw [depth,kin.scanDepth,spared.depth]
      · -- a scan is under way, so what the store evicts was not pinned
        have free := unpinned entry inside
        rw [Broker.pins,Bool.and_eq_false_iff,spared.depth] at free
        rw [same,kin.generation]
        have positive := List.length_pos_iff.mpr open'
        simpa [positive] using free
    · cases stepped
  | publishFails i signature =>
    simp only [Session.advance] at stepped
    split at stepped
    · rename_i generation key _
      cases stepped
      obtain ⟨retracted,depth⟩ := Broker.retract_budgets budgets (key.1,signature) i
      exact s.put_spared spared i ((Broker.failFlight_budgets retracted (generation,key) i).2.trans depth)
    · cases stepped
  | resume i =>
    simp only [Session.advance] at stepped
    split at stepped
    · split at stepped
      · cases stepped
        exact s.put_spared spared i rfl
      · cases stepped
        exact s.put_spared spared i rfl
      · cases stepped
    · cases stepped
  | pin key now =>
    cases stepped
    exact ⟨(Broker.pin_budgets budgets key now).2.scanDepth.trans spared.depth,spared.spared⟩
  | enter scope now =>
    simp only [Session.advance] at stepped
    split at stepped
    · cases stepped
    · cases stepped
      refine ⟨?_,spared.spared⟩
      simp only [(Broker.enterScan_budgets budgets now).2,spared.depth,List.length_append,List.length_singleton]
  | exit scope now =>
    simp only [Session.advance] at stepped
    split at stepped
    · rename_i open'
      cases stepped
      obtain ⟨after,evicted,left,later,depth,last⟩ := Broker.exitScan_exact budgets now
      have fewer := List.length_erase_of_mem open'
      have depth : after.scanDepth = (s.scopes.erase scope).length := by rw [depth,spared.depth,fewer]
      refine s.settle_spared spared _ left depth fun entry inside remains => ?_
      have none' := last (List.ne_nil_of_mem inside)
      rw [depth] at none'
      exact absurd (List.eq_nil_of_length_eq_zero none') remains
    · cases stepped
  | reset =>
    cases stepped
    exact ⟨by simp [Broker.reset,show s.scopes = [] from calm],spared.spared⟩

theorem run_sound (path : Run (Session.advance l) Any Session.initial events s) : Sound l s := by
  refine path.invariant (Sound l) ⟨⟨rfl,rfl,Nat.zero_le _,Nat.zero_le _,Nat.zero_le _,Nat.zero_le _⟩,rfl⟩ ?_
  intro before event after held _ stepped
  exact step_sound held stepped

-- Without a reset inside a scan, the soft limits evict nothing that an active scan uses.
theorem undisturbed_scans_keep (path : Run (Session.advance l) Undisturbed Session.initial events s) :
    s.broker.cacheBytes = s.broker.entries.weigh CacheEntry.weightBytes ∧
    s.broker.inFlightSourceBytes = s.broker.flights.weigh Flight.sourceBytes ∧
    s.broker.entries.size ≤ l.hardMaxEntries ∧ s.broker.cacheBytes ≤ l.hardMaxCacheBytes ∧
    s.broker.flights.size ≤ l.maxInFlight ∧ s.broker.inFlightSourceBytes ≤ l.maxInFlightSourceBytes ∧
    (∀ eviction ∈ s.soft, eviction.scopes ≠ [] → eviction.entry.generation ≠ eviction.generation) ∧
    s.touched = false := by
  have both := path.invariant (fun s => Sound l s ∧ Spared s)
    ⟨⟨⟨rfl,rfl,Nat.zero_le _,Nat.zero_le _,Nat.zero_le _,Nat.zero_le _⟩,rfl⟩,⟨rfl,by simp [Session.initial]⟩⟩ ?_
  · have budgets := both.1.budgets
    exact ⟨budgets.cache,budgets.flying,budgets.entries,budgets.bytes,budgets.flights,budgets.sources,both.2.spared,
      both.1.untouched⟩
  · intro before event after held fits stepped
    exact ⟨step_sound held.1 stepped,step_spared held.1 held.2 fits stepped⟩

end Steps

def demoBounds : Bounds := ⟨1,4,100,100,100,5,2,10,by decide,by decide⟩

theorem demo_scan_keeps : ∃ s : Session Nat Nat Bool, Run (Session.advance demoBounds) Undisturbed Session.initial
      [.enter true 0,.snapshot 0 ("p",0) 5 0,.publish 0 0 10 0,.snapshot 1 ("q",0) 5 0,.publish 1 0 10 0,.exit true (some 0)] s ∧
    s.broker.cacheBytes = s.broker.entries.weigh CacheEntry.weightBytes ∧ s.broker.cacheBytes = 10 := by
  have path : Run (Session.advance demoBounds) Undisturbed (Session.initial : Session Nat Nat Bool)
      [.enter true 0,.snapshot 0 ("p",0) 5 0,.publish 0 0 10 0,.snapshot 1 ("q",0) 5 0,.publish 1 0 10 0,.exit true (some 0)] _ :=
    .cons trivial rfl (.cons trivial rfl (.cons trivial rfl (.cons trivial rfl (.cons trivial rfl (.cons trivial rfl .nil)))))
  exact ⟨_,path,(undisturbed_scans_keep path).1,rfl⟩

-- A scope left open by a reset closes the next scan's: its pins are trimmed while it is
-- still under way.
theorem reset_scan_evicted : ∃ s : Session Nat Nat Bool, Run (Session.advance demoBounds) Any Session.initial
      [.enter true 0,.reset,.enter false 0,.snapshot 0 ("p",0) 5 0,.publish 0 0 10 0,.snapshot 1 ("q",0) 5 0,
        .publish 1 0 10 0,.exit true (some 0)] s ∧
    ∃ eviction ∈ s.soft, eviction.scopes = [false] ∧ eviction.entry.generation = eviction.generation :=
  ⟨_,.cons trivial rfl (.cons trivial rfl (.cons trivial rfl (.cons trivial rfl (.cons trivial rfl (.cons trivial rfl
    (.cons trivial rfl (.cons trivial rfl .nil))))))),_,List.mem_cons_self,rfl,rfl⟩

end AgentSideCar.Chat
