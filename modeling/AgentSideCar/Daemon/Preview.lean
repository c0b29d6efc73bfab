import AgentSideCar.Daemon.Registry
import AgentSideCar.Daemon.Scan
import AgentSideCar.Remote.Cluster

namespace AgentSideCar.Daemon
open Tail
open Loads (Text str)
variable {ρ ε : Type}

def archiveTokenTtlSeconds : Int := 300
def maxArchiveTokens : Nat := 16
def defaultIdleThresholdSeconds : Int := 2 * 60 * 60

-- `scans` is how many snapshots there had been at the preview; the source keeps no such number.
structure ArchiveToken where
  name : String
  expiry : Int
  targets : List SessionKey
  scans : Nat

structure Desk (ρ ε : Type) where
  daemon : State ρ ε := {}
  snapshot : List Row := []
  scans : Nat := 0
  tokens : List ArchiveToken := []

def lower (name : Text) : Text := name.map fun c => if 65 ≤ c ∧ c ≤ 90 then c + 32 else c

def archivable (name : Text) : Option Status :=
  if lower (Cluster.strip name) = str "idle" then some .idle
  else if lower (Cluster.strip name) = str "dead" then some .dead else none

-- None where a name is refused or there is none.
def normalizeStatuses : Option (List (Option Text)) → Option (List Status)
  | none => some [.idle,.dead]
  | some [] => none
  | some names => names.mapM (·.bind archivable)

-- The seconds that a duration is read to, if it is one.
def parseDuration (seconds : Option Int) : Option Int :=
  seconds.filter fun s => minThresholdSeconds ≤ s ∧ s ≤ maxThresholdSeconds

def candidates (idleSeconds now : Int) (statuses : List Status) (rows : List Row) : List Row :=
  rows.filter fun row => row.status ∈ statuses ∧ idleSeconds ≤ now - row.updatedAt

def soonest : List ArchiveToken → Option ArchiveToken
  | [] => none
  | token :: rest => match soonest rest with
    | some other => if other.expiry < token.expiry then some other else some token
    | none => some token

def issueToken (desk : Desk ρ ε) (name : String) (clock : Int) (targets : List SessionKey) : Desk ρ ε :=
  let live := desk.tokens.filter (clock < ·.expiry)
  let kept := if live.length < maxArchiveTokens then live
    else live.filter fun token => (soonest live).any (·.name ≠ token.name)
  {desk with tokens := kept.filter (·.name ≠ name) ++ [⟨name,clock + archiveTokenTtlSeconds,targets,desk.scans⟩]}

def archivePreview (desk : Desk ρ ε) (idleSeconds : Option (Option Int)) (statuses : Option (List (Option Text)))
    (name : String) (now clock : Int) : Desk ρ ε :=
  match parseDuration (idleSeconds.getD (some defaultIdleThresholdSeconds)),normalizeStatuses statuses with
  | some seconds,some wanted =>
    let targets := (candidates seconds now wanted desk.snapshot).map (·.key)
    if targets.any (!validTarget ·) then desk else issueToken desk name clock targets
  | _,_ => desk

structure Apply where
  token : Option String
  targets : List SessionKey
  now : Int
  clock : Int
  loads : Bool
  stores : Bool
  scan : Scan

-- The token a request names, if it is still live and covers what is asked for.
def allowing (desk : Desk ρ ε) (a : Apply) : Option ArchiveToken :=
  (a.token.bind fun name => desk.tokens.find? (·.name = name)).filter fun token =>
    a.clock < token.expiry ∧ ∀ key ∈ a.targets,key ∈ token.targets

def wellFormed (a : Apply) : Bool := a.targets ≠ [] && a.targets.all validTarget

def applied (desk : Desk ρ ε) (a : Apply) : Option Registry :=
  if wellFormed a ∧ (allowing desk a).isSome then archive a.loads a.stores a.targets .batch a.now desk.daemon.registry else none

-- What the answer lists as archived.
def archivedBy (desk : Desk ρ ε) (a : Apply) : List SessionKey :=
  match applied desk a with
  | some _ => (addedEntries a.targets .batch a.now desk.daemon.registry).map (·.target)
  | none => []

def scanDesk (o : Settings ρ ε) (desk : Desk ρ ε) (scan : Scan) : Desk ρ ε :=
  match scan.rows with
  | none => desk
  | some rows => {desk with
      daemon := scanOnce o desk.daemon scan
      snapshot := (sightingOf o desk.daemon scan rows).1.refresh.sessions
      scans := desk.scans + 1}

-- A token that is named is spent, whatever the request asks for.
def spend (desk : Desk ρ ε) (a : Apply) : Desk ρ ε :=
  if wellFormed a then {desk with tokens := desk.tokens.filter fun token => a.token ≠ some token.name} else desk

def archiveApply (o : Settings ρ ε) (desk : Desk ρ ε) (a : Apply) : Desk ρ ε :=
  match applied desk a with
  | some registry => scanDesk o {spend desk a with daemon := {desk.daemon with registry := registry}} a.scan
  | none => spend desk a

-- Requests and scans in any order, beside what the command line does to the registry.
inductive DeskEvent where
  | scan (scan : Scan)
  | archivePreview (idleSeconds : Option (Option Int)) (statuses : Option (List (Option Text))) (name : String)
      (now clock : Int)
  | archiveApply (a : Apply)
  | archive (loads stores : Bool) (wanted : List SessionKey) (reason : ArchiveReason) (now : Int)
  | unarchive (loads stores : Bool) (wanted : List SessionKey)
  | unarchiveAll (loads stores : Bool)

def deskStep (o : Settings ρ ε) (desk : Desk ρ ε) : DeskEvent → Desk ρ ε
  | .scan scan => scanDesk o desk scan
  | .archivePreview idleSeconds statuses name now clock => archivePreview desk idleSeconds statuses name now clock
  | .archiveApply a => archiveApply o desk a
  | .archive loads stores wanted reason now => {desk with daemon := step o desk.daemon (.archive loads stores wanted reason now)}
  | .unarchive loads stores wanted => {desk with daemon := step o desk.daemon (.unarchive loads stores wanted)}
  | .unarchiveAll loads stores => {desk with daemon := step o desk.daemon (.unarchiveAll loads stores)}

def deskRun (o : Settings ρ ε) (events : List DeskEvent) : Desk ρ ε := events.foldl (deskStep o) {}

def busy (row : Row) : Bool := row.status = .working || row.status = .waiting

-- A scan since the preview has found a session that is asked for working or waiting.
def Lapsed (desk : Desk ρ ε) (a : Apply) : Prop :=
  wellFormed a ∧ a.loads = true ∧ a.stores = true ∧ ∃ token, allowing desk a = some token ∧ token.scans < desk.scans ∧
    ∃ row ∈ desk.snapshot, row.key ∈ a.targets ∧ row.key ∉ desk.daemon.registry.map (·.target) ∧ busy row

-- No token's candidate is busy before the next scan.
structure Honest (desk : Desk ρ ε) : Prop where
  once : (desk.snapshot.map (·.key)).Nodup
  past : ∀ token ∈ desk.tokens, token.scans ≤ desk.scans
  idle : ∀ token ∈ desk.tokens, token.scans = desk.scans → ∀ row ∈ desk.snapshot, row.key ∈ token.targets → busy row = false

theorem mapM_inside {α β : Type} {f : α → Option β} {names : List α} {out : List β} (mapped : names.mapM f = some out) :
    ∀ value ∈ out, ∃ name ∈ names, f name = some value := by
  induction names generalizing out with
  | nil =>
    cases mapped
    exact fun _ inside => nomatch inside
  | cons name names ih =>
    rw [List.mapM_cons] at mapped
    obtain ⟨value,first,rest⟩ := Option.bind_eq_some_iff.mp mapped
    obtain ⟨values,later,same⟩ := Option.bind_eq_some_iff.mp rest
    cases same
    intro other inside
    rcases List.mem_cons.mp inside with rfl | inside
    · exact ⟨name,List.mem_cons_self,first⟩
    · obtain ⟨found,among,same⟩ := ih later other inside
      exact ⟨found,List.mem_cons_of_mem _ among,same⟩

theorem statuses_idle (normalized : normalizeStatuses names = some statuses) : ∀ status ∈ statuses, status = .idle ∨ status = .dead := by
  unfold normalizeStatuses at normalized
  split at normalized
  · cases normalized
    simp
  · cases normalized
  · rename_i names _
    intro status inside
    obtain ⟨name,_,same⟩ := mapM_inside normalized status inside
    cases name with
    | none => cases same
    | some name =>
      simp only [Option.bind_some,archivable] at same
      split at same
      · cases same
        exact .inl rfl
      · split at same
        · cases same
          exact .inr rfl
        · cases same

theorem partition_sublist (parted : partition loads stores rows registry = some (visible,registry')) : visible.Sublist rows := by
  unfold partition at parted
  simp only at parted
  split at parted
  · cases parted
  · split at parted
    · cases parted
      exact List.filter_sublist
    · split at parted
      · cases parted
        exact List.filter_sublist
      · cases parted

theorem applyArchive_sublist (o : Settings ρ ε) (scan : Scan) (sessions : List Row) (registry : Registry) :
    (applyArchive o scan sessions registry).1.Sublist sessions := by
  unfold applyArchive
  split
  · exact List.Sublist.refl _
  · split
    · exact List.Sublist.refl _
    · rename_i parted
      exact partition_sublist parted

theorem snapshot_once (o : Settings ρ ε) (d : State ρ ε) (scan : Scan) (rows : List Row) :
    (((sightingOf o d scan rows).1.refresh.sessions).map (·.key)).Nodup := by
  apply List.Nodup.sublist ((applyArchive_sublist o scan _ _).map _)
  exact sessionsOf_unique _ (nextEntries_keyed _ _)

theorem initial_honest : Honest ({} : Desk ρ ε) :=
  ⟨List.nodup_nil,fun _ inside => (nomatch inside),fun _ inside => (nomatch inside)⟩

theorem Honest.daemon {desk : Desk ρ ε} (honest : Honest desk) (d : State ρ ε) : Honest {desk with daemon := d} :=
  ⟨honest.once,honest.past,honest.idle⟩

theorem Honest.fewer {desk : Desk ρ ε} (honest : Honest desk) (keep : ArchiveToken → Bool) :
    Honest {desk with tokens := desk.tokens.filter keep} :=
  ⟨honest.once,fun token inside => honest.past token (List.mem_of_mem_filter inside),
    fun token inside => honest.idle token (List.mem_of_mem_filter inside)⟩

theorem scanDesk_honest (o : Settings ρ ε) {desk : Desk ρ ε} (honest : Honest desk) (scan : Scan) :
    Honest (scanDesk o desk scan) := by
  unfold scanDesk
  split
  · exact honest
  · refine ⟨snapshot_once o _ _ _,fun token inside => (honest.past token inside).trans (Nat.le_succ _),?_⟩
    intro token inside same
    have := honest.past token inside
    simp only at same
    omega

theorem issueToken_honest {desk : Desk ρ ε} (honest : Honest desk) (name : String) (clock : Int)
    (idle : ∀ row ∈ desk.snapshot, row.key ∈ targets → busy row = false) : Honest (issueToken desk name clock targets) := by
  have held : ∀ token ∈ (issueToken desk name clock targets).tokens, token ∈ desk.tokens ∨
      token = ⟨name,clock + archiveTokenTtlSeconds,targets,desk.scans⟩ := by
    intro token inside
    simp only [issueToken,List.mem_append,List.mem_singleton] at inside
    rcases inside with old | new
    · left
      have live := List.mem_of_mem_filter old
      split at live
      · exact List.mem_of_mem_filter live
      · exact List.mem_of_mem_filter (List.mem_of_mem_filter live)
    · exact .inr new
  refine ⟨honest.once,?_,?_⟩
  · intro token inside
    rcases held token inside with old | rfl
    · exact honest.past token old
    · exact Nat.le_refl _
  · intro token inside same
    rcases held token inside with old | rfl
    · exact honest.idle token old same
    · exact idle

theorem archivePreview_honest {desk : Desk ρ ε} (honest : Honest desk) (idleSeconds : Option (Option Int))
    (statuses : Option (List (Option Text))) (name : String) (now clock : Int) :
    Honest (archivePreview desk idleSeconds statuses name now clock) := by
  unfold archivePreview
  split
  · rename_i seconds wanted _ normalized
    simp only
    split
    · exact honest
    · apply issueToken_honest honest
      intro row inside among
      obtain ⟨other,chosen,same⟩ := List.mem_map.mp among
      obtain ⟨there,eligible⟩ := List.mem_filter.mp chosen
      have alike : other = row := List.inj_on_of_nodup_map honest.once there inside same
      subst alike
      simp only [decide_eq_true_eq] at eligible
      rcases statuses_idle normalized _ eligible.1 with status | status <;> simp [busy,status]
  · exact honest

theorem spend_honest {desk : Desk ρ ε} (honest : Honest desk) (a : Apply) : Honest (spend desk a) := by
  unfold spend
  split
  · exact honest.fewer _
  · exact honest

theorem deskStep_honest (o : Settings ρ ε) {desk : Desk ρ ε} (honest : Honest desk) (event : DeskEvent) :
    Honest (deskStep o desk event) := by
  cases event with
  | scan scan => exact scanDesk_honest o honest scan
  | archivePreview idleSeconds statuses name now clock => exact archivePreview_honest honest idleSeconds statuses name now clock
  | archiveApply a =>
    simp only [deskStep,archiveApply]
    split
    · exact scanDesk_honest o ((spend_honest honest a).daemon _) a.scan
    · exact spend_honest honest a
  | archive loads stores wanted reason now => exact honest.daemon _
  | unarchive loads stores wanted => exact honest.daemon _
  | unarchiveAll loads stores => exact honest.daemon _

theorem deskRun_honest (o : Settings ρ ε) (events : List DeskEvent) : Honest (deskRun o events) := by
  have general : ∀ (events : List DeskEvent) (desk : Desk ρ ε), Honest desk → Honest (events.foldl (deskStep o) desk) := by
    intro events
    induction events with
    | nil => exact fun _ honest => honest
    | cons event rest ih => exact fun desk honest => ih _ (deskStep_honest o honest event)
  exact general events {} initial_honest

theorem mem_added : key ∈ (addedEntries wanted reason now registry).map (·.target) ↔
    key ∈ wanted ∧ key ∉ registry.map (·.target) := by
  simp [addedEntries]

theorem archivedBy_mem {desk : Desk ρ ε} (inside : key ∈ archivedBy desk a) :
    wellFormed a ∧ a.loads = true ∧ a.stores = true ∧ (∃ token, allowing desk a = some token) ∧
      key ∈ a.targets ∧ key ∉ desk.daemon.registry.map (·.target) := by
  unfold archivedBy at inside
  split at inside
  · rename_i registry done
    unfold applied at done
    split at done
    · rename_i accepted
      obtain ⟨formed,live⟩ := accepted
      have named := mem_added.mp inside
      have some_added : addedEntries a.targets .batch a.now desk.daemon.registry ≠ [] := by
        intro empty
        rw [empty] at inside
        cases inside
      rw [addedEntries] at some_added
      unfold archive at done
      simp only [some_added,if_false] at done
      split at done
      · cases done
      · split at done
        · rename_i empty
          rw [empty] at named
          cases named.1
        · split at done
          · cases done
          · split at done
            · rename_i loads stores
              exact ⟨formed,by simpa using loads,stores,Option.isSome_iff_exists.mp live,named⟩
            · cases done
    · cases done
  · cases inside

theorem archivedBy_full {desk : Desk ρ ε} (formed : wellFormed a = true) (loads : a.loads = true) (stores : a.stores = true)
    (live : allowing desk a = some token) (asked : key ∈ a.targets) (fresh : key ∉ desk.daemon.registry.map (·.target)) :
    key ∈ archivedBy desk a := by
  have valid : (a.targets.any fun target => !validTarget target) = false := by
    simp only [wellFormed,Bool.and_eq_true,List.all_eq_true] at formed
    simpa using formed.2
  have some_targets : a.targets ≠ [] := List.ne_nil_of_mem asked
  have done : (applied desk a).isSome := by
    simp only [applied,formed,live,Option.isSome_some,and_self,if_true,archive,valid,Bool.false_eq_true,if_false,
      some_targets,loads,stores,Bool.not_true]
    split <;> rfl
  obtain ⟨registry,done⟩ := Option.isSome_iff_exists.mp done
  rw [archivedBy,done]
  exact mem_added.mpr ⟨asked,fresh⟩

-- In any order of scans, previews and applies, an apply spares the sessions that are
-- working or waiting unless a scan since its preview has found one of them so.
theorem apply_spares_busy (o : Settings ρ ε) (events : List DeskEvent) (a : Apply) :
    (∀ key ∈ archivedBy (deskRun o events) a, ∀ row ∈ (deskRun o events).snapshot, row.key = key → busy row = false) ↔
      ¬Lapsed (deskRun o events) a := by
  have honest := deskRun_honest o events
  constructor
  · rintro spares ⟨formed,loads,stores,token,live,_,row,inside,asked,fresh,working⟩
    have quiet := spares row.key (archivedBy_full formed loads stores live asked fresh) row inside rfl
    rw [working] at quiet
    cases quiet
  · rintro current key archived row inside rfl
    obtain ⟨formed,loads,stores,⟨token,live⟩,asked,fresh⟩ := archivedBy_mem archived
    have held := live
    unfold allowing at held
    obtain ⟨named,covers⟩ := Option.filter_eq_some_iff.mp held
    obtain ⟨name,_,found⟩ := Option.bind_eq_some_iff.mp named
    have present := List.mem_of_find?_eq_some found
    simp only [decide_eq_true_eq] at covers
    cases working : busy row with
    | false => rfl
    | true =>
      exfalso
      rcases (honest.past token present).lt_or_eq with later | same
      · exact current ⟨formed,loads,stores,token,live,later,row,inside,asked,fresh,working⟩
      · have quiet := honest.idle token present same row inside (covers.2 row.key asked)
        rw [working] at quiet
        cases quiet

def revivedScan (status : Status) (updatedAt now : Int) (initial : Bool) : Scan :=
  ⟨some [row status updatedAt],[],fun _ => [],initial,now,fun _ _ => none,fun _ => false⟩

-- Idle when it is previewed, at work when it is archived.
def revivedEvents : List DeskEvent :=
  [.scan (revivedScan .idle 0 10000 true),.archivePreview none none "token" 10000 0,.scan (revivedScan .working 10050 10060 false)]

def revivedApply : Apply := ⟨some "token",[watchedKey],10100,100,true,true,revivedScan .working 10050 10100 false⟩

theorem revived_session_archived :
    watchedKey ∈ archivedBy (deskRun settings revivedEvents) revivedApply ∧
    (∃ row ∈ (deskRun settings revivedEvents).snapshot, row.key = watchedKey ∧ busy row = true) ∧
    (archiveApply settings (deskRun settings revivedEvents) revivedApply).snapshot = [] := by
  refine ⟨?_,?_,?_⟩
  · decide +kernel
  · decide +kernel
  · decide +kernel

end AgentSideCar.Daemon
