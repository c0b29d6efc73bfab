import AgentSideCar.Daemon.Registry
import AgentSideCar.Library.Stable

namespace AgentSideCar.ArchiveFile
open Daemon

inductive ArchiveError
  | archiveCorrupt
  | archiveError
  | invalidTarget
  deriving DecidableEq

-- A row of the document is none where it is no mapping with an entry's fields.
inductive File where
  | missing
  | unreadable
  | blank
  | malformed
  | document (schemaVersion : Int) (rows : List (Option ArchiveEntry))

def archiveSchemaVersion : Int := 1

def validEntry (entry : ArchiveEntry) : Bool := validTarget entry.target && decide (0 ≤ entry.archivedAt)

def fromMapping (row : Option ArchiveEntry) : Except ArchiveError ArchiveEntry :=
  match row with
  | none => .error .archiveCorrupt
  | some entry => if validEntry entry then .ok entry else .error .archiveCorrupt

def loadRows (seen : List SessionKey) : List (Option ArchiveEntry) → Except ArchiveError Registry
  | [] => .ok []
  | row :: rest =>
    match fromMapping row with
    | .error code => .error code
    | .ok entry =>
      if entry.target ∈ seen then .error .archiveCorrupt
      else (loadRows (entry.target :: seen) rest).map (entry :: ·)

def load : File → Except ArchiveError Registry
  | .missing => .ok []
  | .unreadable => .error .archiveError
  | .blank => .ok []
  | .malformed => .error .archiveCorrupt
  | .document version rows =>
    if version ≠ archiveSchemaVersion then .error .archiveCorrupt
    else if maxArchiveEntries < rows.length then .error .archiveCorrupt
    else loadRows [] rows

-- `stores` tells whether the file can be replaced.
def store (stores : Bool) (entries : Registry) : Except ArchiveError File :=
  if stores then .ok (.document archiveSchemaVersion ((stored entries).map some)) else .error .archiveError

def isArchived (target : SessionKey) (file : File) : Except ArchiveError Bool :=
  (load file).map (·.any (·.target = target))

def archive (stores : Bool) (targets : List SessionKey) (reason : ArchiveReason) (now : Int) (file : File) :
    Except ArchiveError (List ArchiveEntry × File) :=
  if targets.any (!validTarget ·) then .error .invalidTarget
  else if targets = [] then .ok ([],file)
  else
    match load file with
    | .error code => .error code
    | .ok existing =>
      let added := addedEntries targets reason now existing
      if added = [] then .ok ([],file) else (store stores (existing ++ added)).map (added,·)

structure ArchiveView where
  visible : List Row
  archived : List (Row × ArchiveEntry)
  released : List SessionKey
  deriving DecidableEq

def partition (stores : Bool) (rows : List Row) (file : File) : Except ArchiveError (ArchiveView × File) :=
  match load file with
  | .error code => .error code
  | .ok entries =>
    if entries = [] then .ok (⟨rows,[],[]⟩,file)
    else
      let released := releasedTargets entries rows
      let view := ⟨rows.filter (!hidden entries ·),archivedRows entries rows,released⟩
      if released = [] then .ok (view,file)
      else (store stores (entries.filter (·.target ∉ released))).map (view,·)

-- What every registry that loads is, and what every such registry loads from.
structure Loadable (entries : Registry) : Prop where
  few : entries.length ≤ maxArchiveEntries
  valid : ∀ entry ∈ entries, validEntry entry = true
  unique : (entries.map (·.target)).Nodup

theorem loadRows_sound (loaded : loadRows seen rows = .ok entries) :
    (∀ entry ∈ entries, validEntry entry = true ∧ entry.target ∉ seen) ∧ (entries.map (·.target)).Nodup ∧
      rows = entries.map some := by
  induction rows generalizing seen entries with
  | nil =>
    cases loaded
    simp
  | cons row rest ih =>
    cases row with
    | none => simp [loadRows,fromMapping] at loaded
    | some entry =>
      by_cases valid : validEntry entry = true
      · by_cases fresh : entry.target ∈ seen
        · simp [loadRows,fromMapping,valid,fresh] at loaded
        · cases later : loadRows (entry.target :: seen) rest with
          | error code => simp [loadRows,fromMapping,valid,fresh,later,Except.map] at loaded
          | ok others =>
            have shape : entry :: others = entries := by
              simpa [loadRows,fromMapping,valid,fresh,later,Except.map] using loaded
            subst shape
            obtain ⟨fine,unique,same⟩ := ih later
            refine ⟨?_,?_,by rw [List.map_cons,← same]⟩
            · intro other inside
              rcases List.mem_cons.mp inside with rfl | among
              · exact ⟨valid,fresh⟩
              · exact ⟨(fine other among).1,fun known => (fine other among).2 (List.mem_cons_of_mem _ known)⟩
            · refine List.nodup_cons.mpr ⟨fun inside => ?_,unique⟩
              obtain ⟨other,among,same⟩ := List.mem_map.mp inside
              exact (fine other among).2 (same ▸ List.mem_cons_self)
      · simp [loadRows,fromMapping,valid] at loaded

theorem loadRows_complete (valid : ∀ entry ∈ entries, validEntry entry = true ∧ entry.target ∉ seen)
    (unique : (entries.map (·.target)).Nodup) : loadRows seen (entries.map some) = .ok entries := by
  induction entries generalizing seen with
  | nil => rfl
  | cons entry rest ih =>
    obtain ⟨apart,later⟩ := List.nodup_cons.mp unique
    obtain ⟨own,fresh⟩ := valid entry List.mem_cons_self
    have others : loadRows (entry.target :: seen) (rest.map some) = .ok rest := by
      refine ih (fun other inside => ?_) later
      obtain ⟨fine,unseen⟩ := valid other (List.mem_cons_of_mem _ inside)
      refine ⟨fine,fun known => ?_⟩
      rcases List.mem_cons.mp known with same | early
      · exact apart (List.mem_map.mpr ⟨other,inside,same⟩)
      · exact unseen early
    rw [List.map_cons,loadRows,fromMapping,if_pos own]
    simp only
    rw [if_neg fresh,others]
    rfl

theorem load_sound (loaded : load file = .ok entries) : Loadable entries := by
  have empty : Loadable [] := ⟨Nat.zero_le _,by simp,by simp⟩
  cases file with
  | missing => cases loaded; exact empty
  | unreadable => cases loaded
  | blank => cases loaded; exact empty
  | malformed => cases loaded
  | document version rows =>
    rw [load] at loaded
    split at loaded
    · cases loaded
    split at loaded
    · cases loaded
    rename_i few
    obtain ⟨valid,unique,same⟩ := loadRows_sound loaded
    rw [same,List.length_map] at few
    exact ⟨by omega,fun entry inside => (valid entry inside).1,unique⟩

theorem load_complete (fits : Loadable entries) : load (.document archiveSchemaVersion (entries.map some)) = .ok entries := by
  have few := fits.few
  rw [load,if_neg (fun apart => apart rfl),if_neg (by rw [List.length_map]; omega)]
  exact loadRows_complete (fun entry inside => ⟨fits.valid entry inside,List.not_mem_nil⟩) fits.unique

theorem stored_few (few : entries.length ≤ maxArchiveEntries) : stored entries = entries := if_neg (by omega)

theorem stored_loads (fits : Loadable entries) : store true entries = .ok (.document archiveSchemaVersion (entries.map some)) := by
  rw [store,if_pos rfl,stored_few fits.few]

theorem Loadable.filter (fits : Loadable entries) (p : ArchiveEntry → Bool) : Loadable (entries.filter p) :=
  ⟨(List.length_filter_le p entries).trans fits.few,fun entry inside => fits.valid entry (List.mem_filter.mp inside).1,
    fits.unique.sublist ((List.filter_sublist).map _)⟩

section Split
variable {rows : List Row} {entries : Registry}

theorem entryOf_some (found : entryOf entries row = some entry) :
    validTarget row.key = true ∧ entry ∈ entries ∧ entry.target = row.key := by
  unfold entryOf at found
  split at found
  · rename_i valid
    exact ⟨valid,List.mem_of_find?_eq_some found,by simpa using List.find?_some found⟩
  · cases found

theorem entryOf_own (fits : Loadable entries) (inside : entry ∈ entries) (same : entry.target = row.key) :
    entryOf entries row = some entry := by
  have valid : validTarget row.key = true := by
    have fine := fits.valid entry inside
    rw [validEntry,same,Bool.and_eq_true] at fine
    exact fine.1
  rw [entryOf,if_pos valid]
  cases found : entries.find? (·.target = row.key) with
  | none => exact absurd same (by simpa using List.find?_eq_none.mp found entry inside)
  | some other =>
    have target : other.target = row.key := by simpa using List.find?_some found
    rw [List.inj_on_of_nodup_map fits.unique (List.mem_of_find?_eq_some found) inside (target.trans same.symm)]

theorem released_exact : released entries row = true ↔ ∃ entry, entryOf entries row = some entry ∧ entry.archivedAt < row.updatedAt := by
  simp [released,hides,Option.any_eq_true]

theorem releasedTargets_mem : key ∈ releasedTargets entries rows ↔ ∃ row ∈ rows, released entries row = true ∧ row.key = key := by
  simp [releasedTargets,and_assoc]

-- Rows of distinct sessions, those with no valid target aside.
def Distinct (rows : List Row) : Prop := ((rows.filter (validTarget ·.key)).map (·.key)).Nodup

instance (rows : List Row) : Decidable (Distinct rows) := inferInstanceAs (Decidable (List.Nodup _))

theorem released_own (distinct : Distinct rows) (inside : row ∈ rows) :
    row.key ∈ releasedTargets entries rows ↔ released entries row = true := by
  rw [releasedTargets_mem]
  constructor
  · rintro ⟨other,among,gone,same⟩
    obtain ⟨entry,found,_⟩ := released_exact.mp gone
    have valid := (entryOf_some found).1
    have left : other ∈ rows.filter (validTarget ·.key) := List.mem_filter.mpr ⟨among,valid⟩
    have right : row ∈ rows.filter (validTarget ·.key) := List.mem_filter.mpr ⟨inside,same ▸ valid⟩
    exact List.inj_on_of_nodup_map distinct left right same ▸ gone
  · intro gone
    exact ⟨row,inside,gone,rfl⟩

-- Without the released entries the registry says nothing of a released row, and of any
-- other row what it said before.
theorem entryOf_kept (distinct : Distinct rows) (inside : row ∈ rows) :
    entryOf (entries.filter (·.target ∉ releasedTargets entries rows)) row =
      if released entries row then none else entryOf entries row := by
  have own : row.key ∈ releasedTargets entries rows ↔ released entries row = true := released_own distinct inside
  by_cases gone : released entries row = true
  · rw [if_pos gone]
    cases found : entryOf (entries.filter (·.target ∉ releasedTargets entries rows)) row with
    | none => rfl
    | some entry =>
      obtain ⟨_,among,same⟩ := entryOf_some found
      have left : entry.target ∉ releasedTargets entries rows := by simpa using (List.mem_filter.mp among).2
      exact absurd (own.mpr gone) (same ▸ left)
  · rw [if_neg gone]
    unfold entryOf
    split
    · rw [List.find?_filter]
      refine congrArg (entries.find? ·) (funext fun entry => ?_)
      by_cases same : entry.target = row.key
      · have left : entry.target ∉ releasedTargets entries rows := same ▸ fun out => gone (own.mp out)
        simp [same ▸ left,same]
      · simp [same]
    · rfl

theorem hides_kept (distinct : Distinct rows) (inside : row ∈ rows) :
    (entryOf (entries.filter (·.target ∉ releasedTargets entries rows)) row).filter (hides · row) =
      (entryOf entries row).filter (hides · row) := by
  rw [entryOf_kept distinct inside]
  split
  · rename_i gone
    obtain ⟨entry,found,newer⟩ := released_exact.mp gone
    rw [found,Option.filter_some,if_neg (by simpa [hides] using newer)]
    rfl
  · rfl

theorem released_kept (distinct : Distinct rows) :
    releasedTargets (entries.filter (·.target ∉ releasedTargets entries rows)) rows = [] := by
  rw [List.eq_nil_iff_forall_not_mem]
  intro key inside
  obtain ⟨row,among,gone,_⟩ := releasedTargets_mem.mp inside
  obtain ⟨entry,found,newer⟩ := released_exact.mp gone
  rw [entryOf_kept distinct among] at found
  split at found
  · cases found
  · rename_i still
    exact still (released_exact.mpr ⟨entry,found,newer⟩)

theorem hidden_filter (entries : Registry) (row : Row) :
    hidden entries row = ((entryOf entries row).filter (hides · row)).isSome := by
  unfold Daemon.hidden
  cases entryOf entries row with
  | none => rfl
  | some entry => cases same : hides entry row <;> simp [same]

theorem archivedRows_rows (entries : Registry) (rows : List Row) :
    (archivedRows entries rows).map Prod.fst = rows.filter (hidden entries ·) := by
  induction rows with
  | nil => rfl
  | cons row rest ih =>
    have step : archivedRows entries (row :: rest) =
        (((entryOf entries row).filter (hides · row)).map (row,·)).toList ++ archivedRows entries rest := by
      unfold archivedRows
      rw [List.filterMap_cons]
      cases ((entryOf entries row).filter (hides · row)) <;> rfl
    have own := hidden_filter entries row
    rw [step,List.map_append,ih,List.filter_cons,own]
    cases (entryOf entries row).filter (hides · row) <;> rfl

-- The entry of a row's session, not older than the row.
def keeps (row : Row) (entry : ArchiveEntry) : Bool := entry.target = row.key && decide (row.updatedAt ≤ entry.archivedAt)

theorem keeps_own (fits : Loadable entries) : entry ∈ entries ∧ keeps row entry = true ↔ entryOf entries row = some entry ∧ hides entry row = true := by
  have same : keeps row entry = true ↔ entry.target = row.key ∧ hides entry row = true := by simp [keeps,hides]
  rw [same]
  constructor
  · rintro ⟨inside,own,hidden⟩
    exact ⟨entryOf_own fits inside own,hidden⟩
  · rintro ⟨found,hidden⟩
    exact ⟨(entryOf_some found).2.1,(entryOf_some found).2.2,hidden⟩

theorem hidden_keeps (fits : Loadable entries) (row : Row) : hidden entries row = entries.any (keeps row) := by
  rw [Bool.eq_iff_iff,List.any_eq_true]
  unfold Daemon.hidden
  rw [Option.any_eq_true]
  exact exists_congr fun entry => (keeps_own fits).symm

theorem archivedRows_keeps (fits : Loadable entries) (rows : List Row) :
    ∀ pair ∈ archivedRows entries rows, pair.2 ∈ entries ∧ keeps pair.1 pair.2 = true := by
  intro pair inside
  obtain ⟨row,_,made⟩ := List.mem_filterMap.mp inside
  obtain ⟨entry,left,rfl⟩ := Option.map_eq_some_iff.mp made
  exact (keeps_own fits).mpr (Option.filter_eq_some_iff.mp left)

theorem visible_kept (distinct : Distinct rows) :
    rows.filter (!hidden (entries.filter (·.target ∉ releasedTargets entries rows)) ·) = rows.filter (!hidden entries ·) :=
  List.filter_congr fun row inside => by rw [hidden_filter,hidden_filter,hides_kept distinct inside]

theorem archived_kept (distinct : Distinct rows) :
    archivedRows (entries.filter (·.target ∉ releasedTargets entries rows)) rows = archivedRows entries rows :=
  List.filterMap_congr fun row inside => by rw [hides_kept distinct inside]

end Split

def view (entries : Registry) (rows : List Row) : ArchiveView :=
  ⟨rows.filter (!hidden entries ·),archivedRows entries rows,releasedTargets entries rows⟩

theorem view_empty (rows : List Row) : view [] rows = ⟨rows,[],[]⟩ := by
  have none : ∀ row, entryOf [] row = none := fun row => by simp [entryOf]
  simp [view,archivedRows,releasedTargets,Daemon.hidden,released,none]

theorem partition_quiet (stores : Bool) (loaded : load file = .ok entries) (quiet : releasedTargets entries rows = []) :
    partition stores rows file = .ok (view entries rows,file) := by
  rw [partition,loaded]
  simp only
  split
  · rename_i empty
    rw [empty,view_empty]
  · rfl

theorem partition_loaded (loaded : load file = .ok entries) : ∃ after,
    partition true rows file = .ok (view entries rows,after) ∧
    load after = .ok (entries.filter (·.target ∉ releasedTargets entries rows)) := by
  by_cases quiet : releasedTargets entries rows = []
  · refine ⟨file,partition_quiet true loaded quiet,?_⟩
    rw [loaded,quiet]
    simp
  · have fits := (load_sound loaded).filter (·.target ∉ releasedTargets entries rows)
    refine ⟨_,?_,load_complete fits⟩
    have some' : entries ≠ [] := by
      rintro rfl
      exact quiet (congrArg ArchiveView.released (view_empty rows))
    rw [partition,loaded]
    simp only
    rw [if_neg some',if_neg quiet,stored_loads fits]
    rfl

-- Archived are the rows whose session has an entry that is not older, with that entry, and visible
-- the others, in the order of the rows; only the entries that are older than their session's row
-- leave the registry; and the same rows once more come out the same way and change nothing.
theorem partition_settles (distinct : Distinct rows) (loaded : load file = .ok entries) : ∃ view after,
    partition true rows file = .ok (view,after) ∧
    view.visible = rows.filter (fun row => !entries.any (keeps row)) ∧
    view.archived.map Prod.fst = rows.filter (fun row => entries.any (keeps row)) ∧
    (∀ pair ∈ view.archived, pair.2 ∈ entries ∧ keeps pair.1 pair.2 = true) ∧
    (∀ key, key ∈ view.released ↔
      ∃ row ∈ rows, ∃ entry ∈ entries, row.key = key ∧ entry.target = key ∧ entry.archivedAt < row.updatedAt) ∧
    load after = .ok (entries.filter (·.target ∉ view.released)) ∧
    ∀ stores, partition stores rows after = .ok ({view with released := []},after) := by
  obtain ⟨after,done,left⟩ := partition_loaded loaded
  have fits := load_sound loaded
  have same : (fun row => hidden entries row) = fun row => entries.any (keeps row) := funext (hidden_keeps fits)
  refine ⟨_,after,done,?_,?_,archivedRows_keeps fits rows,?_,left,?_⟩
  · exact congrArg (fun p : Row → Bool => rows.filter (!p ·)) same
  · exact (archivedRows_rows entries rows).trans (congrArg (rows.filter ·) same)
  · intro key
    rw [view,releasedTargets_mem]
    constructor
    · rintro ⟨row,inside,gone,rfl⟩
      obtain ⟨entry,found,newer⟩ := released_exact.mp gone
      exact ⟨row,inside,entry,(entryOf_some found).2.1,rfl,(entryOf_some found).2.2,newer⟩
    · rintro ⟨row,inside,entry,held,rfl,same,newer⟩
      exact ⟨row,inside,released_exact.mpr ⟨entry,entryOf_own fits held same,newer⟩,rfl⟩
  · intro stores
    rw [partition_quiet stores left (released_kept distinct),view,visible_kept distinct,archived_kept distinct,
      released_kept distinct]
    rfl

def demoRows : List Row := [⟨demoKey "a","",.idle,5,""⟩,⟨demoKey "b","",.idle,20,""⟩,⟨demoKey "","",.dead,5,""⟩]

def demoEntries : Registry := [⟨demoKey "a",10,.manual⟩,⟨demoKey "b",10,.auto⟩,⟨demoKey "c",10,.batch⟩]

theorem revived_settles : ∃ view after,
    partition true demoRows (.document 1 (demoEntries.map some)) = .ok (view,after) ∧
    view.visible = demoRows.filter (fun row => !demoEntries.any (keeps row)) ∧
    view.archived.map Prod.fst = demoRows.filter (fun row => demoEntries.any (keeps row)) ∧
    (∀ pair ∈ view.archived, pair.2 ∈ demoEntries ∧ keeps pair.1 pair.2 = true) ∧
    (∀ key, key ∈ view.released ↔
      ∃ row ∈ demoRows, ∃ entry ∈ demoEntries, row.key = key ∧ entry.target = key ∧ entry.archivedAt < row.updatedAt) ∧
    load after = .ok (demoEntries.filter (·.target ∉ view.released)) ∧
    ∀ stores, partition stores demoRows after = .ok ({view with released := []},after) :=
  partition_settles (by decide) (load_complete ⟨by decide,by decide,by decide⟩)

def fresh (targets : List SessionKey) (existing : Registry) : List SessionKey :=
  targets.dedup.filter (· ∉ existing.map (·.target))

def newer (now : Int) (existing : Registry) : Registry := existing.filter (now < ·.archivedAt)

-- What is promised of a request to archive: whatever it answers as archived is archived from
-- then on, and an entry goes only where there is no room for all, and none that stays is older.
def Kept (targets : List SessionKey) (reason : ArchiveReason) (now : Int) (file : File) : Prop :=
  ∀ stores added after, archive stores targets reason now file = .ok (added,after) →
    (∀ entry ∈ added, isArchived entry.target after = .ok true) ∧
    ∀ existing left, load file = .ok existing → load after = .ok left → ∀ entry ∈ existing, entry ∉ left →
      maxArchiveEntries < existing.length + added.length ∧ ∀ other ∈ left, entry.archivedAt ≤ other.archivedAt

theorem added_length (targets : List SessionKey) (reason : ArchiveReason) (now : Int) (existing : Registry) :
    (addedEntries targets reason now existing).length = (fresh targets existing).length := by
  have same : targets.reverse.dedup.reverse.Perm targets.dedup := (List.reverse_perm _).trans (List.reverse_perm targets).dedup
  rw [addedEntries,List.length_map]
  exact (same.filter _).length_eq

theorem added_clock (inside : entry ∈ addedEntries targets reason now existing) : entry.archivedAt = now := by
  obtain ⟨key,_,rfl⟩ := List.mem_map.mp inside
  rfl

theorem added_targets (targets : List SessionKey) (reason : ArchiveReason) (now : Int) (existing : Registry) :
    (addedEntries targets reason now existing).map (·.target) =
      targets.reverse.dedup.reverse.filter (· ∉ existing.map (·.target)) := by
  rw [addedEntries,List.map_map]
  exact List.map_id _

theorem grown_unique (unique : (existing.map (·.target)).Nodup) (targets : List SessionKey) (reason : ArchiveReason) (now : Int) :
    ((existing ++ addedEntries targets reason now existing).map (·.target)).Nodup := by
  rw [List.map_append,added_targets]
  refine List.nodup_append'.mpr ⟨unique,(List.nodup_reverse.mpr (List.nodup_dedup _)).filter _,?_⟩
  intro key known late
  have apart : key ∉ existing.map (·.target) := by simpa using (List.mem_filter.mp late).2
  exact apart known

section Store
variable {entries existing : Registry}

theorem stored_full (full : maxArchiveEntries < entries.length) :
    stored entries = (Stable.sortBy (·.archivedAt) entries).drop (entries.length - maxArchiveEntries) := by
  have same := List.length_insertionSort (fun a b : ArchiveEntry => a.archivedAt ≤ b.archivedAt) entries
  rw [stored,if_pos full]
  dsimp only
  rw [same,Stable.sortBy]

theorem stored_mem (inside : entry ∈ stored entries) : entry ∈ entries := by
  by_cases full : maxArchiveEntries < entries.length
  · rw [stored_full full] at inside
    exact (Stable.sortBy_perm _ _).mem_iff.mp (List.mem_of_mem_drop inside)
  · rwa [stored_few (by omega)] at inside

theorem stored_length (entries : Registry) : (stored entries).length ≤ maxArchiveEntries := by
  by_cases full : maxArchiveEntries < entries.length
  · rw [stored_full full,List.length_drop,(Stable.sortBy_perm _ _).length_eq]
    omega
  · rw [stored_few (by omega)]
    omega

theorem stored_unique (unique : (entries.map (·.target)).Nodup) : ((stored entries).map (·.target)).Nodup := by
  by_cases full : maxArchiveEntries < entries.length
  · rw [stored_full full]
    exact (((Stable.sortBy_perm _ _).map _).nodup_iff.mpr unique).sublist ((List.drop_sublist _ _).map _)
  · rwa [stored_few (by omega)]

theorem evicted_oldest (inside : entry ∈ entries) (gone : entry ∉ stored entries) :
    maxArchiveEntries < entries.length ∧ ∀ other ∈ stored entries, entry.archivedAt ≤ other.archivedAt := by
  have full : maxArchiveEntries < entries.length := by
    by_contra room
    exact gone (by rwa [stored_few (by omega)])
  refine ⟨full,fun other kept => ?_⟩
  rw [stored_full full] at gone kept
  have among := (Stable.sortBy_perm (·.archivedAt) entries).mem_iff.mpr inside
  rw [← List.take_append_drop (entries.length - maxArchiveEntries) (Stable.sortBy (·.archivedAt) entries)] at among
  have early := (List.mem_append.mp among).resolve_right gone
  exact Stable.dropped_least _ entries early kept

theorem load_exact (loaded : load (.document archiveSchemaVersion (entries.map some)) = .ok left) : left = entries := by
  rw [load,if_neg (fun apart => apart rfl)] at loaded
  split at loaded
  · cases loaded
  · exact (List.map_injective_iff.mpr (Option.some_injective _) (loadRows_sound loaded).2.2).symm

theorem stored_added {added : List ArchiveEntry} (clock : ∀ e ∈ added, e.archivedAt = now)
    (unique : ((existing ++ added).map (·.target)).Nodup) (some' : added ≠ []) :
    (∀ e ∈ added, e ∈ stored (existing ++ added)) ↔ added.length + (newer now existing).length ≤ maxArchiveEntries := by
  have less : (newer now existing).length ≤ existing.length := List.length_filter_le _ existing
  by_cases full : maxArchiveEntries < (existing ++ added).length
  · obtain ⟨low,high,sorted,late⟩ : ∃ low high, Stable.sortBy (·.archivedAt) (existing ++ added) = low ++ (added ++ high) ∧
        high.length = (newer now existing).length :=
      ⟨_,_,Stable.sortBy_append existing clock,(Stable.sortBy_perm _ _).length_eq⟩
    have total := (Stable.sortBy_perm (·.archivedAt) (existing ++ added)).length_eq
    rw [sorted,List.length_append,List.length_append,late] at total
    rw [stored_full full,sorted]
    constructor
    · intro all
      by_contra beyond
      obtain ⟨first,others,rfl⟩ := List.exists_cons_of_ne_nil some'
      have twice := ((Stable.sortBy_perm (·.archivedAt) _).nodup_iff.mpr (List.Nodup.of_map _ unique))
      rw [sorted,← List.take_append_drop ((existing ++ first :: others).length - maxArchiveEntries) (_ ++ _)] at twice
      refine List.disjoint_of_nodup_append twice ?_ (all first List.mem_cons_self)
      rw [List.take_append]
      refine List.mem_append_right _ ?_
      obtain ⟨m,beyond⟩ := Nat.exists_eq_add_of_lt
        (show 0 < (existing ++ first :: others).length - maxArchiveEntries - low.length by omega)
      rw [beyond]
      exact List.mem_cons_self
    · intro room e inside
      rw [List.drop_append_of_le_length (by omega)]
      exact List.mem_append_right _ (List.mem_append_left _ inside)
  · rw [stored_few (by omega)]
    rw [List.length_append] at full
    exact iff_of_true (fun e inside => List.mem_append_right _ inside) (by omega)

theorem archived_stored (unique : (entries.map (·.target)).Nodup) (inside : entry ∈ entries)
    (answers : isArchived entry.target (.document archiveSchemaVersion ((stored entries).map some)) = .ok true) :
    entry ∈ stored entries ∧ validEntry entry = true := by
  cases loaded : load (.document archiveSchemaVersion ((stored entries).map some)) with
  | error code => simp [isArchived,loaded,Except.map] at answers
  | ok left =>
    have same := load_exact loaded
    subst same
    obtain ⟨other,kept,target⟩ : ∃ other ∈ stored entries, other.target = entry.target := by
      simpa [isArchived,loaded,Except.map] using answers
    have whole := List.inj_on_of_nodup_map unique (stored_mem kept) inside target
    exact ⟨whole ▸ kept,(load_sound loaded).valid entry (whole ▸ kept)⟩

theorem stored_archived (valid : ∀ entry ∈ entries, validEntry entry = true) (unique : (entries.map (·.target)).Nodup)
    (kept : entry ∈ stored entries) :
    isArchived entry.target (.document archiveSchemaVersion ((stored entries).map some)) = .ok true := by
  have fits : Loadable (stored entries) :=
    ⟨stored_length entries,fun other inside => valid other (stored_mem inside),stored_unique unique⟩
  rw [isArchived,load_complete fits]
  exact congrArg Except.ok (List.any_eq_true.mpr ⟨entry,kept,by simp⟩)

end Store

theorem archive_stored (sound : targets.any (!validTarget ·) = false) (loaded : load file = .ok existing)
    (returned : archive stores targets reason now file = .ok (added,after)) :
    added = addedEntries targets reason now existing ∧
    (after = file ∧ added = [] ∨ after = .document archiveSchemaVersion ((stored (existing ++ added)).map some)) := by
  rw [archive,if_neg (by rw [sound]; exact Bool.false_ne_true)] at returned
  split at returned
  · rename_i none
    cases returned
    exact ⟨by rw [none,addedEntries_nil],.inl ⟨rfl,rfl⟩⟩
  · rw [loaded] at returned
    simp only at returned
    split at returned
    · rename_i old
      cases returned
      exact ⟨old.symm,.inl ⟨rfl,rfl⟩⟩
    · cases stores with
      | false => cases returned
      | true =>
        cases returned
        exact ⟨rfl,.inr rfl⟩

theorem added_valid (sound : targets.any (!validTarget ·) = false) (inside : entry ∈ addedEntries targets reason now existing) :
    validTarget entry.target = true := by
  obtain ⟨key,among,rfl⟩ := List.mem_map.mp inside
  have own : key ∈ targets := by simpa using (List.mem_filter.mp among).1
  simpa using List.any_eq_false.mp sound key own

-- The condition under which a request keeps its promise.
def Roomy (targets : List SessionKey) (now : Int) (existing : Registry) : Prop :=
  fresh targets existing = [] ∨
    0 ≤ now ∧ (fresh targets existing).length + (newer now existing).length ≤ maxArchiveEntries

theorem archive_returns (sound : targets.any (!validTarget ·) = false) (loaded : load file = .ok existing)
    (reason : ArchiveReason) (now : Int) (some' : addedEntries targets reason now existing ≠ []) :
    archive true targets reason now file = .ok (addedEntries targets reason now existing,
      .document archiveSchemaVersion ((stored (existing ++ addedEntries targets reason now existing)).map some)) := by
  have wanted : targets ≠ [] := by
    rintro rfl
    exact some' (addedEntries_nil reason now existing)
  rw [archive,if_neg (by rw [sound]; exact Bool.false_ne_true),if_neg wanted,loaded]
  simp only
  rw [if_neg some',store,if_pos rfl]
  rfl

theorem added_kept (sound : targets.any (!validTarget ·) = false) (loaded : load file = .ok existing)
    (kept : Kept targets reason now file) : Roomy targets now existing := by
  by_cases none : fresh targets existing = []
  · exact .inl none
  · have some' : addedEntries targets reason now existing ≠ [] := by
      rwa [ne_eq,← List.length_eq_zero_iff,added_length,List.length_eq_zero_iff]
    have unique := grown_unique (load_sound loaded).unique targets reason now
    have archived := (kept true _ _ (archive_returns sound loaded reason now some')).1
    have each : ∀ e ∈ addedEntries targets reason now existing,
        e ∈ stored (existing ++ addedEntries targets reason now existing) ∧ validEntry e = true :=
      fun e inside => archived_stored unique (List.mem_append_right _ inside) (archived e inside)
    refine .inr ⟨?_,?_⟩
    · obtain ⟨first,inside⟩ := List.exists_mem_of_ne_nil _ some'
      have valid := (each first inside).2
      rw [validEntry,added_clock inside,Bool.and_eq_true,decide_eq_true_eq] at valid
      exact valid.2
    · rw [← added_length targets reason now]
      exact (stored_added (fun _ => added_clock) unique some').mp fun e inside => (each e inside).1

theorem roomy_kept (sound : targets.any (!validTarget ·) = false) (loaded : load file = .ok existing)
    (room : Roomy targets now existing) : Kept targets reason now file := by
  intro stores added after returned
  have fits := load_sound loaded
  have unique := grown_unique fits.unique targets reason now
  obtain ⟨rfl,⟨rfl,none⟩ | rfl⟩ := archive_stored sound loaded returned
  · rw [none]
    refine ⟨fun _ inside => absurd inside List.not_mem_nil,fun earlier left held kept entry inside gone => ?_⟩
    cases held.symm.trans kept
    exact absurd inside gone
  · constructor
    · intro entry inside
      rcases room with none | ⟨clock,room⟩
      · rw [← List.length_eq_zero_iff,← added_length targets reason now,List.length_eq_zero_iff] at none
        rw [none] at inside
        exact absurd inside List.not_mem_nil
      · rw [← added_length targets reason now] at room
        have stays := (stored_added (fun _ => added_clock) unique (List.ne_nil_of_mem inside)).mpr room entry inside
        refine stored_archived (fun other among => ?_) unique stays
        rcases List.mem_append.mp among with early | late
        · exact fits.valid other early
        · rw [validEntry,added_valid sound late,added_clock late]
          simpa using clock
    · intro earlier left held kept entry inside gone
      cases loaded.symm.trans held
      have same := load_exact kept
      subst same
      rw [← List.length_append]
      exact evicted_oldest (List.mem_append_left _ inside) gone

-- A registry with no room left, of sessions named by ever longer names.
def crowded : Registry :=
  (List.range maxArchiveEntries).map fun n => ⟨demoKey (String.ofList (List.replicate (n + 1) 'a')),1000,.auto⟩

theorem crowded_length : crowded.length = maxArchiveEntries := by rw [crowded,List.length_map,List.length_range]

theorem crowded_clock (inside : entry ∈ crowded) : entry.archivedAt = 1000 := by
  obtain ⟨n,_,rfl⟩ := List.mem_map.mp inside
  rfl

theorem crowded_target (inside : entry ∈ crowded) :
    ∃ n, entry.target = demoKey (String.ofList (List.replicate (n + 1) 'a')) := by
  obtain ⟨n,_,rfl⟩ := List.mem_map.mp inside
  exact ⟨n,rfl⟩

theorem demoKey_injective (same : demoKey (String.ofList m) = demoKey (String.ofList n)) : m = n :=
  String.ofList_injective (congrArg Prod.snd (toLex_inj.mp same))

theorem crowded_fits : Loadable crowded := by
  refine ⟨crowded_length.le,fun entry inside => ?_,?_⟩
  · obtain ⟨n,target⟩ := crowded_target inside
    rw [validEntry,target,crowded_clock inside,validTarget]
    simp [demoKey]
  · rw [crowded,List.map_map]
    refine List.nodup_range.map fun m n same => ?_
    have lengths := congrArg List.length (demoKey_injective same)
    simpa using lengths

theorem crowded_newer : newer 999 crowded = crowded :=
  List.filter_eq_self.mpr fun entry inside => by rw [crowded_clock inside]; rfl

theorem newcomer : demoKey "!" ∉ crowded.map (·.target) := by
  intro inside
  obtain ⟨entry,among,same⟩ := List.mem_map.mp inside
  obtain ⟨n,target⟩ := crowded_target among
  have names := demoKey_injective (m := ['!']) (same.symm.trans target)
  simp [List.replicate_succ] at names

end AgentSideCar.ArchiveFile
