import AgentSideCar.Daemon.Archive
import AgentSideCar.Library.Serial

namespace AgentSideCar.Daemon
open Runs Serial

-- The operations of ArchiveStore; the daemon's auto policy is an archive and then a partition.
inductive Operation where
  | archive (wanted : List SessionKey) (reason : ArchiveReason) (now : Int)
  | unarchive (wanted : List SessionKey)
  | unarchiveAll
  | partition (rows : List Row)
  | entries

inductive Answer where
  | added (entries : List ArchiveEntry)
  | removed (targets : List SessionKey)
  | view (visible : List Row) (archived : List (Row × ArchiveEntry)) (released : List SessionKey)
  | listed (entries : Registry)
  | invalidTarget

def addedEntries (wanted : List SessionKey) (reason : ArchiveReason) (now : Int) (existing : Registry) :
    List ArchiveEntry :=
  (wanted.reverse.dedup.reverse.filter (· ∉ existing.map (·.target))).map (⟨·,now,reason⟩)

def archivedRows (registry : Registry) (rows : List Row) : List (Row × ArchiveEntry) :=
  rows.filterMap fun row => ((entryOf registry row).filter (hides · row)).map (row,·)

def releasedTargets (registry : Registry) (rows : List Row) : List SessionKey :=
  (rows.filter (released registry ·)).map (·.key)

-- What an operation makes of the registry it loads: its answer, and the registry it
-- stores. Only _load and _store touch the file, and nothing locks it between them.
def perform : Operation → Call Registry Answer
  | .archive wanted reason now,existing =>
    if wanted.any (!validTarget ·) then (.invalidTarget,none)
    else
      let added := addedEntries wanted reason now existing
      (.added added,if added = [] then none else some (stored (existing ++ added)))
  | .unarchive wanted,existing =>
    if wanted.any (!validTarget ·) then (.invalidTarget,none)
    else
      let removed := (existing.filter (·.target ∈ wanted)).map (·.target)
      (.removed removed,if removed = [] then none else some (stored (existing.filter (·.target ∉ wanted))))
  | .unarchiveAll,existing => (.removed (existing.map (·.target)),if existing = [] then none else some [])
  | .partition rows,entries =>
    let gone := releasedTargets entries rows
    (.view (rows.filter (!hidden entries ·)) (archivedRows entries rows) gone,
      if gone = [] then none else some (stored (entries.filter (·.target ∉ gone))))
  | .entries,entries => (.listed entries,none)

-- The operation as one uninterrupted call whose file loads and stores.
def performAlone : Operation → Registry → Option Registry
  | .archive wanted reason now,registry => archive true true wanted reason now registry
  | .unarchive wanted,registry => unarchive true true wanted registry
  | .unarchiveAll,registry => unarchiveAll true true registry
  | .partition rows,registry => (partition true true rows registry).map Prod.snd
  | .entries,registry => some registry

theorem addedEntries_nil (reason : ArchiveReason) (now : Int) (existing : Registry) :
    addedEntries [] reason now existing = [] := rfl

theorem removed_nil (wanted : List SessionKey) (registry : Registry) :
    ((registry.filter (·.target ∈ wanted)).map (·.target) = []) = (registry.all (·.target ∉ wanted) = true) := by
  rw [List.map_eq_nil_iff,List.filter_eq_nil_iff,List.all_eq_true]
  simp

theorem performAlone_exact (op : Operation) (registry : Registry) (accepted : (perform op registry).1 ≠ .invalidTarget) :
    performAlone op registry = some ((perform op registry).2.getD registry) := by
  cases op with
  | archive wanted reason now =>
    simp only [performAlone,perform,archive] at accepted ⊢
    split
    · rename_i bad; simp [bad] at accepted
    · by_cases empty : wanted = []
      · simp [empty,addedEntries_nil]
      · simp only [empty,if_false,Bool.not_true,Bool.false_eq_true,if_true]
        rw [← addedEntries]
        split <;> rfl
  | unarchive wanted =>
    simp only [performAlone,perform,unarchive] at accepted ⊢
    split
    · rename_i bad; simp [bad] at accepted
    · by_cases empty : wanted = []
      · simp [empty]
      · simp only [empty,if_false,Bool.not_true,Bool.false_eq_true,if_true]
        rw [ite_cond_congr (removed_nil wanted registry)]
        split <;> rfl
  | unarchiveAll =>
    simp only [performAlone,perform,unarchiveAll,Bool.not_true,Bool.false_eq_true,if_false,if_true]
    split
    · rename_i empty; simp [empty]
    · rfl
  | partition rows =>
    simp only [performAlone,perform,partition,Bool.not_true,Bool.false_eq_true,if_false,if_true]
    rw [← releasedTargets]
    split <;> rfl
  | entries => rfl

-- Any number of operations on one registry file, each by some process or thread,
-- whose loads and stores come in any order, as long as a store replaces the
-- registry its own operation loaded: the file and every answer are those of the
-- operations that answered, run one after the other in the order of their answers.
theorem current_stores_serialize {ι : Type} [DecidableEq ι] (operations : ι → Operation) (start : Registry)
    {events : List (Event ι)} {s : World Registry Answer ι}
    (path : Run (Serial.advance (perform ∘ operations)) Current (initial start) events s) :
    ∃ order : List ι, order.Nodup ∧ (∀ i, i ∈ order ↔ ∃ answer, s.phase i = .answered answer) ∧
      (serially (perform ∘ operations) order start).1 = s.file ∧
      ∀ i answer, (i,answer) ∈ (serially (perform ∘ operations) order start).2 ↔ s.phase i = .answered answer := by
  have held := run_serialized path
  refine ⟨s.log.map Prod.fst,held.once,fun i => ?_,by rw [held.exact],fun i answer => by rw [held.exact]; exact held.answered i answer⟩
  constructor
  · intro inside
    obtain ⟨⟨j,answer⟩,present,rfl⟩ := List.mem_map.mp inside
    exact ⟨answer,(held.answered j answer).mp present⟩
  · intro answered
    obtain ⟨answer,phase⟩ := answered
    exact List.mem_map.mpr ⟨(i,answer),(held.answered i answer).mpr phase,rfl⟩

def demoKey (name : String) : SessionKey := toLex ("claude",name)

-- The daemon archives one session while the command line archives another.
def demoArchives (daemon : Bool) : Operation :=
  if daemon then .archive [demoKey "a"] .batch 1 else .archive [demoKey "b"] .batch 2

theorem current_stores_archive : ∃ order : List Bool, order.Nodup ∧
    (serially (perform ∘ demoArchives) order []).1 = [⟨demoKey "a",1,.batch⟩,⟨demoKey "b",2,.batch⟩] := by
  have path : Run (Serial.advance (perform ∘ demoArchives)) Current (initial [])
      [.load true,.store true,.load false,.store false] _ :=
    .cons trivial rfl (.cons (by intro _ _ _ same; cases same; rfl) rfl
      (.cons trivial rfl (.cons (by intro _ _ _ same; cases same; rfl) rfl .nil)))
  obtain ⟨order,once,_,file,_⟩ := current_stores_serialize demoArchives [] path
  exact ⟨order,once,file⟩

-- Both load before either stores: both are acknowledged, and one archive is lost.
theorem overlapped_archive_lost : ∃ s,
    Run (Serial.advance (perform ∘ demoArchives)) Any (initial [])
      [.load true,.load false,.store true,.store false] s ∧
    s.phase true = .answered (.added [⟨demoKey "a",1,.batch⟩]) ∧
    s.phase false = .answered (.added [⟨demoKey "b",2,.batch⟩]) ∧
    ∀ order ∈ [[true,false],[false,true]], (serially (perform ∘ demoArchives) order []).1 ≠ s.file := by
  refine ⟨_,.cons trivial rfl (.cons trivial rfl (.cons trivial rfl (.cons trivial rfl .nil))),rfl,rfl,?_⟩
  decide +kernel

end AgentSideCar.Daemon
