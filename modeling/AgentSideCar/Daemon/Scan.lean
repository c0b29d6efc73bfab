import AgentSideCar.Daemon.Archive
import AgentSideCar.Tail.Refreshes

namespace AgentSideCar.Daemon
open Tail
variable {ρ ε : Type}

structure FileSignature where
  path : String
  found : Bool
  mtimeNs : Int
  size : Nat
  deriving DecidableEq

-- The metadata signature is the row's own JSON: it changes where the row does.
structure IndexEntry where
  session : Row
  sources : List FileSignature
  deriving DecidableEq

abbrev Index := Dict SessionKey IndexEntry

def latest (rows : List Row) : Dict SessionKey Row :=
  rows.foldl (fun latest row => match latest.get row.key with
    | none => latest.set row.key row
    | some previous => if previous.updatedAt < row.updatedAt then latest.set row.key row else latest) .empty

def nextEntries (sources : Row → List FileSignature) (rows : List Row) : Index :=
  (latest rows).entries.foldl (fun next e => next.set e.1 ⟨e.2,sources e.2⟩) .empty

def updateIndex (sources : Row → List FileSignature) (rows : List Row) (index : Index) : Index × List SessionKey :=
  let next := nextEntries sources rows
  (next,next.keys.filter fun key => index.get key ≠ next.get key)

abbrev rowOrder (a b : Row) : Prop := b.updatedAt < a.updatedAt ∨ a.updatedAt = b.updatedAt ∧ a.key ≤ b.key

def sessionsOf (index : Index) : List Row := (index.values.map (·.session)).insertionSort rowOrder

structure Settings (ρ ε : Type) where
  pool : Options SessionKey ρ ε
  autoArchive : Bool
  autoArchiveAfter : Int

inductive Access | autoLoad | autoStore | load | store
  deriving DecidableEq

-- One pass of the scanner: no rows where it raised.
structure Scan where
  rows : Option (List Row)
  failedAgents : List String
  sources : Row → List FileSignature
  initial : Bool
  now : Int
  files : String → Nat → Option File
  fails : Access → Bool

def autoArchived (o : Settings ρ ε) (scan : Scan) (sessions : List Row) (registry : Registry) : Option Registry :=
  if !o.autoArchive then some registry
  else if o.autoArchiveAfter < minThresholdSeconds || maxThresholdSeconds < o.autoArchiveAfter then none
  else
    let stale := selectArchivable o.autoArchiveAfter scan.now sessions
    if stale = [] then some registry
    else archive (!scan.fails .autoLoad) (!scan.fails .autoStore) (stale.map (·.key)) .auto scan.now registry

-- A registry that fails never hides a session.
def applyArchive (o : Settings ρ ε) (scan : Scan) (sessions : List Row) (registry : Registry) : List Row × Registry :=
  match autoArchived o scan sessions registry with
  | none => (sessions,registry)
  | some registry =>
    match partition (!scan.fails .load) (!scan.fails .store) sessions registry with
    | none => (sessions,registry)
    | some view => view

def retainFailed (scan : Scan) (discovered : List Row) (index : Index) : List Row :=
  discovered ++ (index.keys.filter fun key => agentOf key ∈ scan.failedAgents ∧ key ∉ discovered.map (·.key)).filterMap
    fun key => (index.get key).map (·.session)

structure State (ρ ε : Type) where
  index : Index := .empty
  registry : Registry := []
  pool : Pool SessionKey ρ ε := {}

-- A scan as the daemon sees it: all sessions of the index, and what the pool is told.
structure Sighting where
  found : List Row
  refresh : Refresh SessionKey

def sightingOf (o : Settings ρ ε) (d : State ρ ε) (scan : Scan) (rows : List Row) : Sighting × Index × Registry :=
  let (index,changed) := updateIndex scan.sources (retainFailed scan rows d.index) d.index
  let sessions := sessionsOf index
  let (visible,registry) := applyArchive o scan sessions d.registry
  (⟨sessions,⟨visible,changed,scan.initial,scan.now,scan.files⟩⟩,index,registry)

def scanOnce (o : Settings ρ ε) (d : State ρ ε) (scan : Scan) : State ρ ε :=
  match scan.rows with
  | none => d
  | some rows =>
    let (sighting,index,registry) := sightingOf o d scan rows
    ⟨index,registry,refresh o.pool d.pool sighting.refresh⟩

-- Between scans the registry changes under the daemon, from the command line.
inductive Event where
  | scan (scan : Scan)
  | archive (loads stores : Bool) (wanted : List SessionKey) (reason : ArchiveReason) (now : Int)
  | unarchive (loads stores : Bool) (wanted : List SessionKey)
  | unarchiveAll (loads stores : Bool)

def step (o : Settings ρ ε) (d : State ρ ε) : Event → State ρ ε
  | .scan scan => scanOnce o d scan
  | .archive loads stores wanted reason now =>
    {d with registry := (archive loads stores wanted reason now d.registry).getD d.registry}
  | .unarchive loads stores wanted => {d with registry := (unarchive loads stores wanted d.registry).getD d.registry}
  | .unarchiveAll loads stores => {d with registry := (unarchiveAll loads stores d.registry).getD d.registry}

def run (o : Settings ρ ε) (d : State ρ ε) (events : List Event) : State ρ ε := events.foldl (step o) d

def sighted (o : Settings ρ ε) (d : State ρ ε) : Event → Option Sighting
  | .scan scan => scan.rows.map fun rows => (sightingOf o d scan rows).1
  | _ => none

def sightings (o : Settings ρ ε) : State ρ ε → List Event → List Sighting
  | _,[] => []
  | d,event :: rest => (sighted o d event).toList ++ sightings o (step o d event) rest

theorem run_pool (o : Settings ρ ε) (d : State ρ ε) (events : List Event) :
    (run o d events).pool = refreshAll o.pool d.pool ((sightings o d events).map (·.refresh)) := by
  induction events generalizing d with
  | nil => rfl
  | cons event rest ih =>
    rw [run,List.foldl_cons,← run,ih,sightings,List.map_append,refreshAll,refreshAll,List.foldl_append]
    congr 1
    cases event with
    | scan scan =>
      simp only [step,scanOnce,sighted]
      cases scan.rows <;> rfl
    | archive loads stores wanted reason now => rfl
    | unarchive loads stores wanted => rfl
    | unarchiveAll loads stores => rfl

theorem partition_found (parted : partition loads stores rows registry = some (visible,registry')) :
    ∀ row ∈ visible, row ∈ rows := by
  have general : ∀ row ∈ rows.filter (!hidden registry ·), row ∈ rows := fun row inside => (List.mem_filter.mp inside).1
  unfold partition at parted
  simp only at parted
  split at parted
  · cases parted
  · split at parted
    · cases parted; exact general
    · split at parted
      · cases parted; exact general
      · cases parted

theorem applyArchive_found (o : Settings ρ ε) (scan : Scan) (sessions : List Row) (registry : Registry) :
    ∀ row ∈ (applyArchive o scan sessions registry).1, row ∈ sessions := by
  unfold applyArchive
  split
  · exact fun _ inside => inside
  · split
    · exact fun _ inside => inside
    · rename_i view parted
      exact partition_found parted

theorem latest_keyed (rows : List Row) : ∀ k row, (latest rows).get k = some row → row.key = k := by
  have general : ∀ (rows : List Row) (d : Dict SessionKey Row), (∀ k row, d.get k = some row → row.key = k) →
      ∀ k row, (rows.foldl (fun latest row => match latest.get row.key with
        | none => latest.set row.key row
        | some previous => if previous.updatedAt < row.updatedAt then latest.set row.key row else latest) d).get k =
          some row → row.key = k := by
    intro rows
    induction rows with
    | nil => exact fun _ keyed => keyed
    | cons row rest ih =>
      intro d keyed
      have added : ∀ k r, (d.set row.key row).get k = some r → r.key = k := by
        intro k r found
        rw [Dict.get_set] at found
        split at found
        · rename_i same; cases found; exact same.symm
        · exact keyed k r found
      refine ih _ ?_
      simp only
      split
      · exact added
      · split
        · exact added
        · exact keyed
  exact general rows .empty (by simp [Dict.get_empty])

theorem nextEntries_keyed (sources : Row → List FileSignature) (rows : List Row) :
    ∀ k e, (nextEntries sources rows).get k = some e → e.session.key = k := by
  have general : ∀ (pairs : List (SessionKey × Row)) (d : Index), (∀ p ∈ pairs, p.2.key = p.1) →
      (∀ k e, d.get k = some e → e.session.key = k) →
      ∀ k e, (pairs.foldl (fun next p => next.set p.1 ⟨p.2,sources p.2⟩) d).get k = some e → e.session.key = k := by
    intro pairs
    induction pairs with
    | nil => exact fun _ _ keyed => keyed
    | cons p rest ih =>
      intro d named keyed
      refine ih _ (fun q inside => named q (List.mem_cons_of_mem _ inside)) fun k e found => ?_
      rw [Dict.get_set] at found
      split at found
      · rename_i same; cases found; exact (named p List.mem_cons_self).trans same.symm
      · exact keyed k e found
  refine general _ .empty (fun p inside => ?_) (by simp [Dict.get_empty])
  exact latest_keyed rows p.1 p.2 ((Dict.get_iff _).mpr inside)

theorem sessionsOf_unique (index : Index) (keyed : ∀ k e, index.get k = some e → e.session.key = k) :
    ((sessionsOf index).map (·.key)).Nodup := by
  have same : (index.values.map (·.session)).map (·.key) = index.keys := by
    rw [Dict.values,Dict.keys,List.map_map,List.map_map]
    refine List.map_congr_left fun p inside => ?_
    exact keyed p.1 p.2 ((Dict.get_iff _).mpr inside)
  refine ((List.perm_insertionSort _ _).map _).nodup_iff.mpr ?_
  rw [same]
  exact index.unique

theorem sightings_sound (o : Settings ρ ε) (d : State ρ ε) (events : List Event) : ∀ s ∈ sightings o d events,
    (∀ row ∈ s.refresh.sessions, row ∈ s.found) ∧ (s.found.map (·.key)).Nodup := by
  induction events generalizing d with
  | nil => simp [sightings]
  | cons event rest ih =>
    intro s inside
    rcases List.mem_append.mp inside with now | later
    · have now := Option.mem_toList.mp now
      cases event with
      | scan scan =>
        obtain ⟨rows,_,rfl⟩ := Option.map_eq_some_iff.mp now
        exact ⟨applyArchive_found o scan _ _,sessionsOf_unique _ (nextEntries_keyed _ _)⟩
      | archive loads stores wanted reason now => cases now
      | unarchive loads stores wanted => cases now
      | unarchiveAll loads stores => cases now
    · exact ih _ s later

theorem currentOf_some (e : Refresh SessionKey) (found : (currentOf e).get k = some s) : s ∈ e.sessions ∧ s.key = k := by
  have general : ∀ (sessions : List Row) (d : Dict SessionKey Row), (∀ k s, d.get k = some s → s ∈ e.sessions ∧ s.key = k) →
      (∀ s ∈ sessions, s ∈ e.sessions) →
      ∀ k s, (sessions.foldl (fun current s => current.set s.key s) d).get k = some s → s ∈ e.sessions ∧ s.key = k := by
    intro sessions
    induction sessions with
    | nil => exact fun _ keyed _ => keyed
    | cons s rest ih =>
      intro d keyed within
      refine ih _ (fun k r found => ?_) fun r inside => within r (List.mem_cons_of_mem _ inside)
      rw [Dict.get_set] at found
      split at found
      · rename_i same; cases found; exact ⟨within s List.mem_cons_self,same.symm⟩
      · exact keyed k r found
  exact general e.sessions .empty (by simp [Dict.get_empty]) (fun _ inside => inside) k s found

-- A session the daemon has discovered, hidden and shown again.
theorem reshown_session_exact (o : Settings ρ ε) (k : SessionKey) (path : String) (identity : Nat) (events : List Event)
    (absent : List Sighting) (first : Sighting) (early : List Sighting) (last : Sighting) (later : List Sighting)
    (scans : sightings o {} events = absent ++ first :: later) (whole : first :: later = early ++ [last])
    (opens : Opens k ((absent ++ first :: later).map (·.refresh)))
    (undiscovered : ∀ s ∈ absent, k ∉ s.found.map (·.key))
    (discovered : ∀ s ∈ first :: later, ∃ row ∈ s.found, row.key = k ∧ row.transcript = path)
    (appended : Appended path identity ((first :: later).map (·.refresh)))
    (readable : ∀ e ∈ (first :: later).map (·.refresh), Readable o.pool.reader (e.files path))
    (begins : Begun o.pool k path (startOf path absent.isEmpty first.refresh) first.refresh (later.map (·.refresh))) :
    (run o {} events).pool = refresh o.pool (refreshAll o.pool {} ((absent ++ early).map (·.refresh))) last.refresh ∧
      Exact o.pool k path (startOf path absent.isEmpty first.refresh) (refreshAll o.pool {} ((absent ++ early).map (·.refresh)))
        last.refresh := by
  have sound : ∀ s ∈ absent ++ first :: later,
      (∀ row ∈ s.refresh.sessions, row ∈ s.found) ∧ (s.found.map (·.key)).Nodup := scans ▸ sightings_sound o {} events
  refine ⟨?_,?_⟩
  · rw [run_pool,scans,whole,← List.append_assoc,List.map_append]
    exact List.foldl_append ..
  · rw [List.map_cons] at appended readable
    rw [← List.isEmpty_map (f := Sighting.refresh)] at begins ⊢
    rw [List.map_append]
    refine retaken_exact o.pool k path identity (absent.map (·.refresh)) first.refresh (early.map (·.refresh)) last.refresh
      (later.map (·.refresh)) ?_ ?_ ?_ ?_ appended readable begins
    · simpa using congrArg (List.map (·.refresh)) whole
    · simpa using opens
    · intro e inside
      obtain ⟨s,ins,rfl⟩ := List.mem_map.mp inside
      intro shown
      obtain ⟨row,inrow,same⟩ := List.mem_map.mp shown
      refine undiscovered s ins (List.mem_map.mpr ⟨row,?_,same⟩)
      exact (sound s (List.mem_append_left _ ins)).1 row inrow
    · intro e inside row found
      rw [← List.map_cons] at inside
      obtain ⟨s,ins,rfl⟩ := List.mem_map.mp inside
      obtain ⟨shown,named⟩ := currentOf_some _ found
      obtain ⟨visible,unique⟩ := sound s (List.mem_append_right _ ins)
      obtain ⟨known,present,key,transcript⟩ := discovered s ins
      rw [List.inj_on_of_nodup_map unique (visible row shown) present (named.trans key.symm)]
      exact transcript

def watchedKey : SessionKey := toLex ("claude","one")
def settings : Settings Bytes Unit := ⟨⟨braced,fun _ _ => [()],48 * 60 * 60,32,daily_bounded⟩,false,86400⟩
def row (status : Status) (updatedAt : Int) : Row := ⟨watchedKey,transcriptPath,status,updatedAt,""⟩
def transcript (content : Bytes) : String → Nat → Option File := fun _ _ => some ⟨7,content,true⟩
def scanning (status : Status) (updatedAt now : Int) (initial : Bool) (content : Bytes) : Event :=
  .scan ⟨some [row status updatedAt],[],fun _ => [⟨transcriptPath,true,updatedAt,content.length⟩],initial,now,
    transcript content,fun _ => false⟩
def sighting (status : Status) (updatedAt now : Int) (visible initial : Bool) (changed : List SessionKey) (content : Bytes) :
    Sighting :=
  ⟨[row status updatedAt],⟨if visible then [row status updatedAt] else [],changed,initial,now,transcript content⟩⟩

-- Archived with its first row still open, and back once the row is complete.
def archivedEarly : List Event :=
  [scanning .idle 0 5 true [123],.archive true true [watchedKey] .manual 10,scanning .idle 0 15 false [123],
    .unarchive true true [watchedKey],scanning .working 20 25 false [123,125,10]]

theorem archivedEarly_sightings : sightings settings {} archivedEarly =
    [sighting .idle 0 5 true true [watchedKey] [123],sighting .idle 0 15 false false [] [123],
      sighting .working 20 25 true false [watchedKey] [123,125,10]] := by
  rfl

theorem transcript_readable (content : Bytes) : Readable settings.pool.reader (transcript content transcriptPath) := by
  rintro i f look
  cases look
  refine ⟨rfl,fun line _ _ _ => ?_⟩
  simp only [settings,braced]
  split <;> simp

theorem archivedEarly_appended : Appended transcriptPath 7 ([sighting .idle 0 5 true true [watchedKey] [123],
    sighting .idle 0 15 false false [] [123],sighting .working 20 25 true false [watchedKey] [123,125,10]].map (·.refresh)) := by
  refine ⟨?_,?_,?_⟩
  · intro e inside i f look
    simp only [List.map_cons,List.map_nil,List.mem_cons,List.not_mem_nil,or_false] at inside
    rcases inside with rfl | rfl | rfl <;> cases look <;> rfl
  · intro e inside i j _
    simp only [List.map_cons,List.map_nil,List.mem_cons,List.not_mem_nil,or_false] at inside
    rcases inside with rfl | rfl | rfl <;> exact List.prefix_rfl
  · have grown : ([123] : Bytes) <+: [123,125,10] := ⟨[125,10],rfl⟩
    refine .cons ?_ (.cons ?_ (.cons nofun .nil))
    · exact List.forall_mem_cons.mpr ⟨fun _ _ => List.prefix_rfl,List.forall_mem_cons.mpr ⟨fun _ _ => grown,nofun⟩⟩
    · exact List.forall_mem_cons.mpr ⟨fun _ _ => grown,nofun⟩

theorem archived_row_returns :
    Exact settings.pool watchedKey transcriptPath [123] (refreshAll settings.pool {} ([sighting .idle 0 5 true true [watchedKey] [123],
      sighting .idle 0 15 false false [] [123]].map (·.refresh)))
      (sighting .working 20 25 true false [watchedKey] [123,125,10]).refresh ∧
    (slot (run settings {} archivedEarly).pool watchedKey).out = [[123,125]] := by
  refine ⟨?_,by decide +kernel⟩
  refine (reshown_session_exact settings watchedKey transcriptPath 7 archivedEarly [] _ [_,_] _ [_,_] archivedEarly_sightings rfl
    ⟨fun | _,rfl,_ => rfl,by simp [sighting]⟩ nofun ?_ archivedEarly_appended ?_ ?_).2
  · simp only [List.forall_mem_cons]
    exact ⟨⟨_,List.mem_singleton_self _,rfl,rfl⟩,⟨_,List.mem_singleton_self _,rfl,rfl⟩,⟨_,List.mem_singleton_self _,rfl,rfl⟩,nofun⟩
  · simp only [List.map_cons,List.forall_mem_cons]
    exact ⟨transcript_readable _,transcript_readable _,transcript_readable _,nofun⟩
  · have tailed : ∀ status updated now visible initial changed content s,
        (currentOf (sighting status updated now visible initial changed content).refresh).get watchedKey = some s →
        visible = true → shouldTail settings.pool now (row status updated) = true → shouldTail settings.pool now s = true := by
      intro status updated now visible initial changed content s found shown tails
      subst shown
      cases found
      exact tails
    refine (if_pos (by decide)).mpr ⟨⟨by decide,fun s found => .inl (tailed _ _ _ _ _ _ _ s found rfl (by decide +kernel))⟩,?_⟩
    refine (if_neg (by decide)).mpr ((if_pos (by decide)).mpr ⟨fun _ => ⟨⟨by decide,fun s found => .inl ?_⟩,?_⟩,trivial⟩)
    · exact tailed _ _ _ _ _ _ _ s found rfl (by decide +kernel)
    · exact fun _ => (by decide +kernel : recordsSince settings.pool.reader [] [123] = [])

-- A session with one record is archived and comes back with a second one: both are
-- published, the first of them from before the start. And one that comes back before
-- anything is appended is not followed again until the next record, which is lost.
theorem reshown_session_replays :
    (slot (run settings {} [scanning .idle 0 5 true [123,10],.archive true true [watchedKey] .manual 10,
      scanning .idle 0 15 false [123,10],.unarchive true true [watchedKey],
      scanning .working 20 25 false [123,10,123,125,10]]).pool watchedKey).out = [[123],[123,125]] ∧
    (slot (run settings {} [scanning .idle 0 5 true [123,10],.archive true true [watchedKey] .manual 10,
      scanning .idle 0 15 false [123,10],.unarchive true true [watchedKey],scanning .idle 0 25 false [123,10],
      scanning .working 30 35 false [123,10,123,125,10]]).pool watchedKey).out = [] ∧
    recordsSince settings.pool.reader [123,10] [123,10,123,125,10] = [[123,125]] := by
  refine ⟨?_,?_,?_⟩
  · decide +kernel
  · decide +kernel
  · decide +kernel

end AgentSideCar.Daemon
