import AgentSideCar.Daemon.LogRecord
import AgentSideCar.Library.Runs
import Mathlib.Data.List.Infix

namespace AgentSideCar.DaemonLog
open Json (Fields)
open Runs

-- daemon.jsonl is number 0 and its backups follow; none is a name that does not exist.
abbrev Files := Nat → Option Text

def put (i : Nat) (content : Option Text) (files : Files) : Files := fun j => if j = i then content else files j

inductive ErrorCode where | unsafeLogSize | invalidLog | logLineTooLarge | logWriteFailed | logRepairFailed
  deriving DecidableEq

def line (r : Fields) : Text := Json.dumps r ++ ['\n']

-- The calls of _rotate that change the directory: the chain of backups from the oldest, the
-- current file after it, and the file that takes its place.
inductive Move where
  | shift (index : Nat)
  | first
  | drop
  | create
  deriving DecidableEq

def shifts : Nat → List Move
  | 0 => []
  | 1 => []
  | n + 2 => .shift (n + 2) :: shifts (n + 1)
def rotate (backups : Nat) : List Move := if backups = 0 then [.drop,.create] else shifts backups ++ [.first,.create]

def Move.apply : Move → Files → Files
  | .shift index,files => match files (index - 1) with
    | none => put index none files
    | some content => put (index - 1) none (put index (some content) files)
  | .first,files => put 0 none (put 1 (files 0) files)
  | .drop,files => put 0 none files
  | .create,files => put 0 (some ((files 0).getD [])) files

-- Where the process is: no descriptor, between two appends, an append that has failed, the calls
-- of _rotate still to make, the bytes still to write after a file of the size `before`, or all
-- of them written.
inductive Phase where
  | closed
  | ready
  | disabled (errorCode : ErrorCode)
  | rotating (moves : List Move) (payload : Text)
  | writing (before : Nat) (rest : Text)
  | written (before : Nat)
  deriving DecidableEq

-- Beside the files and the process: the records that append has begun on so far, those it has
-- said yes to, those it has written whole and not taken back, and the current file as the last
-- write found it.
structure Log where
  files : Files := fun _ => none
  phase : Phase := .closed
  attempted : List Fields := []
  acknowledged : List Fields := []
  kept : List Fields := []
  prior : Text := []

section Steps
variable (o : Options)

-- _repair_current: every complete line is checked, and a short suffix that is none is cut off.
def repair (content : Text) : Except ErrorCode Text :=
  let suffix := Lines.openRow '\n' content
  if !(Lines.lines '\n' content).all (validateRecordLine o) then .error .invalidLog
  else if suffix = [] then .ok content
  else if o.lineBytes ≤ suffix.length then .error .invalidLog
  else .ok (content.take (content.length - suffix.length))

def openLog (files : Files) : Except ErrorCode Files :=
  if (List.range (maxBackups + 1)).any fun i => (files i).any fun content => o.maxBytes < content.length then .error .unsafeLogSize
  else
    let files : Files := fun i => if o.backups < i ∧ i ≤ maxBackups then none else files i
    (repair o ((files 0).getD [])).map fun content => put 0 (some content) files

def startWrite (payload : Text) (s : Log) : Log :=
  let content := (s.files 0).getD []
  {s with phase := .writing content.length payload,prior := content}

def append (r : Fields) (s : Log) : Log :=
  let payload := line r
  let s := {s with attempted := s.attempted ++ [r]}
  if min o.lineBytes o.maxBytes < payload.length then {s with phase := .disabled .logLineTooLarge}
  else if o.maxBytes < ((s.files 0).getD []).length + payload.length then {s with phase := .rotating (rotate o.backups) payload}
  else startWrite payload s

-- The except clause of append: ftruncate and fsync, and the code it disables the log with.
def undo (truncates synced : Bool) (before : Nat) (s : Log) : Log :=
  {s with
    files := if truncates then put 0 (some (((s.files 0).getD []).take before)) s.files else s.files
    phase := .disabled (if truncates && synced then .logWriteFailed else .logRepairFailed)}

end Steps

inductive Event where
  | open
  | append (w : Surroundings) (event : Value) (fields : List (String × Value))
  | move
  | write (bytes : Nat)
  | acknowledge
  | fail (truncates synced : Bool)
  | crash
  | close

-- None where the event cannot be in this phase.
def advance (o : Options) (s : Log) (event : Event) : Option Log :=
  match event,s.phase with
  | .open,.closed => match openLog o s.files with
    | .ok files => some {s with files := files,phase := .ready}
    | .error _ => none
  | .append w event fields,.ready => some (append o (record o w event fields) s)
  | .append _ _ _,.disabled _ => some s
  | .move,.rotating (m :: moves) payload =>
    let s := {s with files := m.apply s.files}
    some (if moves = [] then startWrite payload s else {s with phase := .rotating moves payload})
  | .write bytes,.writing before rest =>
    if bytes = 0 ∨ rest.length < bytes then none
    else
      let s := {s with files := put 0 (some ((s.files 0).getD [] ++ rest.take bytes)) s.files}
      some (if rest.length = bytes then {s with phase := .written before,kept := s.kept ++ s.attempted.getLast?.toList}
        else {s with phase := .writing before (rest.drop bytes)})
  | .acknowledge,.written _ => some {s with phase := .ready,acknowledged := s.acknowledged ++ s.attempted.getLast?.toList}
  | .fail _ _,.rotating _ _ => some {s with phase := .disabled .logWriteFailed}
  | .fail truncates synced,.writing before _ => some (undo truncates synced before s)
  | .fail truncates synced,.written before => some
    {undo truncates synced before s with kept := if truncates then s.kept.dropLast else s.kept}
  | .crash,.closed => none
  | .crash,_ => some {s with phase := .closed}
  | .close,.ready => some {s with phase := .closed}
  | .close,.disabled _ => some {s with phase := .closed}
  | _,_ => none

-- What a reader finds: the complete lines, from the oldest backup to the current file.
def readRecords (content : Text) : List Fields := (Lines.lines '\n' content).filterMap Json.loads
def readAll (files : Files) : List Fields := [3,2,1,0].flatMap fun i => readRecords ((files i).getD [])

-- What has to hold in every state a log reaches.
structure Sound (o : Options) (s : Log) : Prop where
  reopens : s.phase = .closed → ∃ files, openLog o s.files = .ok files ∧ readAll files = readAll s.files
  acknowledged : s.acknowledged.Sublist s.kept
  attempted : s.kept.Sublist s.attempted
  contiguous : readAll s.files <:+ s.kept
  recent : 0 < o.backups → readAll s.files = [] → s.kept = []
  bounded : ∀ i content, s.files i = some content → content.length ≤ o.maxBytes
  restored : ∀ before rest synced after, s.phase = .writing before rest ∨ s.phase = .written before →
    advance o s (.fail true synced) = some after → after.files 0 = some s.prior

def payload (records : List Fields) : Text := records.flatMap line

variable {o : Options} {s s' : Log} {files : Files} {records : List Fields} {tail : Text}

theorem payload_rows (records : List Fields) : payload records = (records.map Json.dumps).flatMap (· ++ ['\n']) := by
  rw [List.flatMap_map]
  rfl

theorem feed_payload (written : ∀ r ∈ records, Written o r) (clean : '\n' ∉ tail) :
    Lines.feed '\n' [] (payload records ++ tail) = (records.map Json.dumps,tail) := by
  rw [payload_rows]
  refine Lines.feed_rows _ _ (fun row inside => ?_) clean
  obtain ⟨r,present,rfl⟩ := List.mem_map.mp inside
  exact (written r present).clean

theorem readRecords_payload (written : ∀ r ∈ records, Written o r) (clean : '\n' ∉ tail) :
    readRecords (payload records ++ tail) = records := by
  rw [readRecords,Lines.lines,feed_payload written clean]
  clear clean
  induction records with
  | nil => rfl
  | cons r rest ih =>
    rw [List.map_cons,List.filterMap_cons_some (written r List.mem_cons_self).read,
      ih fun r inside => written r (List.mem_cons_of_mem _ inside)]

theorem repair_payload (written : ∀ r ∈ records, Written o r) (clean : '\n' ∉ tail) (short : tail.length < o.lineBytes) :
    repair o (payload records ++ tail) = .ok (payload records) := by
  have valid : (records.map Json.dumps).all (validateRecordLine o) = true := by
    rw [List.all_map]
    exact List.all_eq_true.mpr fun r inside => (written r inside).valid
  simp only [repair,Lines.lines,Lines.openRow,feed_payload written clean,valid,Bool.not_true]
  rw [if_neg (by simp)]
  split
  · rename_i whole
    rw [whole,List.append_nil]
  · rw [if_neg (Nat.not_le.mpr short)]
    simp

-- The files hold these records, and the current one a torn tail after them.
structure Laid (o : Options) (files : Files) (recs : Nat → List Fields) (tail : Text) : Prop where
  current : files 0 = some (payload (recs 0) ++ tail) ∨ files 0 = none ∧ recs 0 = [] ∧ tail = []
  backups : ∀ i, 1 ≤ i → files i = some (payload (recs i)) ∨ files i = none ∧ recs i = []
  written : ∀ i, ∀ r ∈ recs i, Written o r
  extras : ∀ i, o.backups < i → files i = none
  bounded : ∀ i content, files i = some content → content.length ≤ o.maxBytes
  clean : '\n' ∉ tail

variable {recs : Nat → List Fields}

def ordered (recs : Nat → List Fields) : List Fields := recs 3 ++ recs 2 ++ recs 1 ++ recs 0

theorem Laid.reads (laid : Laid o files recs tail) : readAll files = ordered recs := by
  have current : readRecords ((files 0).getD []) = recs 0 := by
    rcases laid.current with there | ⟨away,none',_⟩
    · rw [there,Option.getD_some,readRecords_payload (laid.written 0) laid.clean]
    · rw [away,none']
      rfl
  have backup : ∀ i, 1 ≤ i → readRecords ((files i).getD []) = recs i := by
    intro i low
    rcases laid.backups i low with there | ⟨away,none'⟩
    · have := readRecords_payload (laid.written i) (by simp : '\n' ∉ [])
      rw [there,Option.getD_some]
      simpa using this
    · rw [away,none']
      rfl
  simp only [readAll,List.flatMap_cons,List.flatMap_nil,List.append_nil,current,backup 1 (by omega),backup 2 (by omega),
    backup 3 (by omega),ordered,List.append_assoc]

theorem Laid.reopens (laid : Laid o files recs tail) (short : tail.length < o.lineBytes) :
    ∃ files', openLog o files = .ok files' ∧ Laid o files' recs [] ∧ files' 0 = some (payload (recs 0)) := by
  have sizes : ((List.range (maxBackups + 1)).any fun i => (files i).any fun content => o.maxBytes < content.length) = false := by
    refine List.any_eq_false.mpr fun i _ => ?_
    cases there : files i with
    | none => simp
    | some content => simpa using laid.bounded i content there
  have content : (files 0).getD [] = payload (recs 0) ++ tail := by
    rcases laid.current with there | ⟨away,none',whole⟩
    · rw [there,Option.getD_some]
    · rw [away,none',whole]
      rfl
  have kept : (fun i => if o.backups < i ∧ i ≤ maxBackups then none else files i) = files := by
    funext i
    split
    · rename_i extra
      exact (laid.extras i extra.1).symm
    · rfl
  refine ⟨put 0 (some (payload (recs 0))) files,?_,?_,rfl⟩
  · unfold openLog
    rw [if_neg (by rw [sizes]; decide)]
    show (repair o (((fun i => if o.backups < i ∧ i ≤ maxBackups then none else files i) 0).getD [])).map _ = _
    rw [kept,content,repair_payload (laid.written 0) laid.clean short]
    rfl
  · refine ⟨.inl (by simp [put]),fun i low => ?_,laid.written,fun i extra => ?_,fun i text there => ?_,by simp⟩
    · rw [put,if_neg (by omega)]
      exact laid.backups i low
    · rw [put,if_neg (by omega)]
      exact laid.extras i extra
    · unfold put at there
      split at there
      · cases there
        rcases laid.current with here | ⟨away,none',_⟩
        · have := laid.bounded 0 _ here
          rw [List.length_append] at this
          omega
        · rw [none']
          exact Nat.zero_le _
      · exact laid.bounded i text there

theorem Laid.absent (laid : Laid o files recs tail) (low : 1 ≤ i) (extra : o.backups < i) : recs i = [] := by
  rcases laid.backups i low with there | ⟨_,none'⟩
  · rw [laid.extras i extra] at there
    cases there
  · exact none'

-- What the log holds beside what append has said and done so far.
structure Held (o : Options) (files : Files) (recs : Nat → List Fields) (tail : Text) (acknowledged kept attempted : List Fields) :
    Prop where
  laid : Laid o files recs tail
  contiguous : ordered recs <:+ kept
  acknowledged : acknowledged.Sublist kept
  attempted : kept.Sublist attempted
  recent : 0 < o.backups → ordered recs = [] → kept = []

variable {acknowledged kept attempted : List Fields} {r : Fields}

theorem Held.begun (held : Held o files recs tail acknowledged kept attempted) :
    Held o files recs tail acknowledged kept (attempted ++ [r]) :=
  {held with attempted := held.attempted.trans (List.sublist_append_left _ _)}

theorem Held.torn (held : Held o files recs [] acknowledged kept attempted) (written : Text)
    (fits : (payload (recs 0)).length + written.length ≤ o.maxBytes) (clean : '\n' ∉ written) :
    Held o (put 0 (some (payload (recs 0) ++ written)) files) recs written acknowledged kept attempted := by
  refine {held with laid := ⟨.inl (by simp [put]),fun i low => ?_,held.laid.written,fun i extra => ?_,fun i text there => ?_,clean⟩}
  · rw [put,if_neg (by omega)]
    exact held.laid.backups i low
  · rw [put,if_neg (by omega)]
    exact held.laid.extras i extra
  · unfold put at there
    split at there
    · cases there
      rw [List.length_append]
      exact fits
    · exact held.laid.bounded i text there

theorem payload_snoc (records : List Fields) (r : Fields) : payload (records ++ [r]) = payload records ++ line r := by
  simp [payload]

def grown (r : Fields) (recs : Nat → List Fields) : Nat → List Fields := fun i => if i = 0 then recs 0 ++ [r] else recs i

theorem ordered_grown : ordered (grown r recs) = ordered recs ++ [r] := by
  simp [ordered,grown]

theorem Held.grows (held : Held o files recs [] acknowledged kept attempted) (written : Written o r)
    (fits : (payload (recs 0)).length + (line r).length ≤ o.maxBytes) :
    Held o (put 0 (some (payload (recs 0) ++ line r)) files) (grown r recs) [] acknowledged (kept ++ [r]) (attempted ++ [r]) := by
  refine ⟨⟨.inl ?_,fun i low => ?_,fun i r' inside => ?_,fun i extra => ?_,fun i text there => ?_,by simp⟩,?_,?_,?_,?_⟩
  · simp [put,grown,payload_snoc]
  · rw [put,if_neg (by omega),grown,if_neg (by omega)]
    exact held.laid.backups i low
  · unfold grown at inside
    split at inside
    · rcases List.mem_append.mp inside with old | new
      · exact held.laid.written 0 r' old
      · rw [List.mem_singleton.mp new]
        exact written
    · exact held.laid.written i r' inside
  · rw [put,if_neg (by omega)]
    exact held.laid.extras i extra
  · unfold put at there
    split at there
    · cases there
      rw [List.length_append]
      exact fits
    · exact held.laid.bounded i text there
  · rw [ordered_grown]
    obtain ⟨lost,same⟩ := held.contiguous
    exact ⟨lost,by rw [← same,List.append_assoc]⟩
  · exact held.acknowledged.trans (List.sublist_append_left _ _)
  · exact held.attempted.append (List.Sublist.refl _)
  · intro _ none'
    rw [ordered_grown] at none'
    simp at none'

-- What may still be to do of a rotation: the chain is free at n, or its oldest file may go.
inductive Turn (o : Options) (files : Files) (recs : Nat → List Fields) : List Move → Prop where
  | chain : 1 ≤ n → n ≤ o.backups → n = o.backups ∨ recs n = [] → recs 0 ≠ [] → files 0 = some (payload (recs 0)) →
    Turn o files recs (shifts n ++ [.first,.create])
  | drop : o.backups = 0 → Turn o files recs [.drop,.create]
  | create : files 0 = none → recs 0 = [] → (0 < o.backups → recs 1 ≠ []) → Turn o files recs [.create]

-- The write of r in the current file, of which these bytes are out.
structure Midway (o : Options) (s : Log) (recs : Nat → List Fields) (kept early : List Fields) (r : Fields) (before : Nat)
    (out : Text) : Prop where
  held : Held o (put 0 (some s.prior) s.files) recs [] s.acknowledged kept early
  prior : s.prior = payload (recs 0)
  current : s.files 0 = some (s.prior ++ out)
  size : before = s.prior.length
  attempted : s.attempted = early ++ [r]
  written : Written o r
  fits : (payload (recs 0)).length + (line r).length ≤ o.maxBytes

def Inv (o : Options) (s : Log) : Prop :=
  match s.phase with
  | .closed | .disabled _ => ∃ recs tail, Held o s.files recs tail s.acknowledged s.kept s.attempted ∧ tail.length < o.lineBytes
  | .ready => ∃ recs, Held o s.files recs [] s.acknowledged s.kept s.attempted ∧ s.files 0 = some (payload (recs 0))
  | .rotating moves payload => ∃ recs early r, Held o s.files recs [] s.acknowledged s.kept early ∧ Turn o s.files recs moves ∧
    s.attempted = early ++ [r] ∧ Written o r ∧ payload = line r ∧ (line r).length ≤ o.maxBytes
  | .writing before rest => ∃ recs early r out, Midway o s recs s.kept early r before out ∧ line r = out ++ rest ∧ rest ≠ []
  | .written before => ∃ recs kept early r, Midway o s recs kept early r before (line r) ∧ s.kept = kept ++ [r]

theorem line_fits (written : Written o r) : (line r).length ≤ o.lineBytes := by
  have := written.valid
  simp only [validateRecordLine,Bool.and_eq_true,decide_eq_true_eq] at this
  simpa [line] using this.1.2

theorem put_put {i : Nat} {a b : Option Text} : put i a (put i b files) = put i a files := by
  funext j
  unfold put
  split <;> rfl

theorem put_same {i : Nat} {a : Option Text} (here : files i = a) : put i a files = files := by
  funext j
  unfold put
  split
  · rename_i same
    rw [same,here]
  · rfl

section Write
variable {early : List Fields} {before : Nat} {out rest : Text}

theorem Midway.rejoins (midway : Midway o s recs kept early r before out) :
    put 0 (some (s.prior ++ out)) (put 0 (some s.prior) s.files) = s.files := by
  rw [put_put,put_same midway.current]

theorem torn_clean (written : Written o r) (split : line r = out ++ rest) (part : rest ≠ []) : '\n' ∉ out := by
  intro inside
  obtain ⟨front,last,rfl⟩ : ∃ front last, rest = front ++ [last] := ⟨_,_,(List.dropLast_append_getLast part).symm⟩
  rw [← List.append_assoc] at split
  have same := (List.append_inj' split rfl).1
  exact written.clean (same ▸ List.mem_append_left _ inside)

theorem Midway.torn (midway : Midway o s recs s.kept early r before out) (split : line r = out ++ rest) (part : rest ≠ []) :
    Held o s.files recs out s.acknowledged s.kept s.attempted ∧ out.length < o.lineBytes := by
  have lengths : (line r).length = out.length + rest.length := by rw [split,List.length_append]
  have some' := List.length_pos_of_ne_nil part
  have fits := midway.fits
  have limit := line_fits midway.written
  have held := (midway.held.torn out (by omega) (torn_clean midway.written split part)).begun (r := r)
  rw [← midway.prior,midway.rejoins,← midway.attempted] at held
  exact ⟨held,by omega⟩

theorem Midway.whole (midway : Midway o s recs kept early r before (line r)) :
    Held o s.files (grown r recs) [] s.acknowledged (kept ++ [r]) s.attempted := by
  have held := midway.held.grows midway.written midway.fits
  rwa [← midway.prior,midway.rejoins,← midway.attempted] at held

theorem Midway.writes (midway : Midway o s recs kept early r before out) {after : Text}
    (files : s'.files = put 0 (some (s.prior ++ after)) s.files) (prior : s'.prior = s.prior)
    (acknowledged : s'.acknowledged = s.acknowledged) (attempted : s'.attempted = s.attempted) :
    Midway o s' recs kept early r before after := by
  refine ⟨?_,prior.trans midway.prior,?_,?_,attempted.trans midway.attempted,midway.written,midway.fits⟩
  · rw [files,prior,acknowledged,put_put]
    exact midway.held
  · rw [files,prior]
    rfl
  · rw [prior]
    exact midway.size

theorem Midway.undone (midway : Midway o s recs kept early r before out) :
    put 0 (some (((s.files 0).getD []).take before)) s.files = put 0 (some s.prior) s.files := by
  rw [midway.current,Option.getD_some,midway.size,List.take_left]

end Write

-- Wherever the process stops, what is on disk is the log with a short tail.
theorem Inv.stopped (good : Inv o s) :
    ∃ recs tail, Held o s.files recs tail s.acknowledged s.kept s.attempted ∧ tail.length < o.lineBytes := by
  unfold Inv at good
  split at good
  · exact good
  · exact good
  · obtain ⟨recs,held,_⟩ := good
    exact ⟨recs,[],held,o.bounds.2.1⟩
  · obtain ⟨recs,early,r,held,_,begun,_⟩ := good
    exact ⟨recs,[],begun ▸ held.begun,o.bounds.2.1⟩
  · obtain ⟨recs,early,r,out,midway,split,part⟩ := good
    exact ⟨recs,out,midway.torn split part⟩
  · obtain ⟨recs,k,early,r,midway,added⟩ := good
    exact ⟨grown r recs,[],added ▸ midway.whole,o.bounds.2.1⟩

-- One link of the chain: what was at a goes to b.
def carry (a b : Nat) (recs : Nat → List Fields) : Nat → List Fields :=
  fun i => if i = a then [] else if i = b then recs a else recs i

theorem Laid.slot (laid : Laid o files recs []) (i : Nat) : files i = some (payload (recs i)) ∨ files i = none ∧ recs i = [] := by
  rcases Nat.eq_zero_or_pos i with rfl | low
  · rcases laid.current with here | ⟨away,none',_⟩
    · exact .inl (by simpa using here)
    · exact .inr ⟨away,none'⟩
  · exact laid.backups i low

theorem laid_slots (slot : ∀ i, files i = some (payload (recs i)) ∨ files i = none ∧ recs i = [])
    (written : ∀ i, ∀ r ∈ recs i, Written o r) (extras : ∀ i, o.backups < i → files i = none)
    (bounded : ∀ i content, files i = some content → content.length ≤ o.maxBytes) : Laid o files recs [] := by
  refine ⟨?_,fun i _ => slot i,written,extras,bounded,by simp⟩
  rcases slot 0 with here | ⟨away,none'⟩
  · exact .inl (by simpa using here)
  · exact .inr ⟨away,none',rfl⟩

theorem Laid.carry (laid : Laid o files recs []) (within : b ≤ o.backups) :
    Laid o (put a none (put b (files a) files)) (carry a b recs) [] := by
  refine laid_slots (fun i => ?_) (fun i r inside => ?_) (fun i extra => ?_) (fun i content there => ?_)
  · unfold put DaemonLog.carry
    split
    · exact .inr ⟨rfl,rfl⟩
    split
    · exact laid.slot a
    · exact laid.slot i
  · unfold DaemonLog.carry at inside
    split at inside
    · cases inside
    split at inside
    · exact laid.written a r inside
    · exact laid.written i r inside
  · unfold put
    split
    · rfl
    · rw [if_neg (by omega)]
      exact laid.extras i extra
  · unfold put at there
    split at there
    · cases there
    split at there
    · exact laid.bounded a content there
    · exact laid.bounded i content there

theorem Laid.emptied (laid : Laid o files recs []) (content : Option Text) (empty : content.getD [] = []) :
    Laid o (put 0 content files) (fun i => if i = 0 then [] else recs i) [] := by
  refine laid_slots (fun i => ?_) (fun i r inside => ?_) (fun i extra => ?_) (fun i text there => ?_)
  · unfold put
    split
    · cases content with
      | none => exact .inr ⟨rfl,rfl⟩
      | some text => exact .inl (by rw [show text = [] from empty]; rfl)
    · exact laid.slot i
  · split at inside
    · cases inside
    · exact laid.written i r inside
  · rw [put,if_neg (by omega)]
    exact laid.extras i extra
  · unfold put at there
    split at there
    · subst there
      rw [show text = [] from empty]
      exact Nat.zero_le _
    · exact laid.bounded i text there

theorem Laid.carry_suffix (laid : Laid o files recs []) (within : a + 1 ≤ o.backups)
    (free : a + 1 = o.backups ∨ recs (a + 1) = []) : ordered (DaemonLog.carry a (a + 1) recs) <:+ ordered recs := by
  have most := o.bounds.2.2.2
  unfold maxBackups at most
  obtain rfl | rfl | rfl : a = 0 ∨ a = 1 ∨ a = 2 := by omega
  · rcases free with last | free
    · have none3 : recs 3 = [] := laid.absent (by omega) (by omega)
      have none2 : recs 2 = [] := laid.absent (by omega) (by omega)
      exact ⟨recs 1,by simp [ordered,DaemonLog.carry,none3,none2]⟩
    · exact ⟨[],by simp [ordered,DaemonLog.carry,free]⟩
  · rcases free with last | free
    · have none3 : recs 3 = [] := laid.absent (by omega) (by omega)
      exact ⟨recs 2,by simp [ordered,DaemonLog.carry,none3]⟩
    · exact ⟨[],by simp [ordered,DaemonLog.carry,free]⟩
  · exact ⟨recs 3,by simp [ordered,DaemonLog.carry]⟩

theorem carry_keeps (full : recs 0 ≠ []) (within : a + 1 ≤ maxBackups) : ordered (carry a (a + 1) recs) ≠ [] := by
  unfold maxBackups at within
  intro none'
  obtain rfl | rfl | rfl : a = 0 ∨ a = 1 ∨ a = 2 := by omega
  all_goals
    simp only [ordered,carry,List.append_eq_nil_iff] at none'
    simp [full] at none'

theorem Held.carry (held : Held o files recs [] acknowledged kept attempted) (within : a + 1 ≤ o.backups)
    (free : a + 1 = o.backups ∨ recs (a + 1) = []) (full : recs 0 ≠ []) :
    Held o (put a none (put (a + 1) (files a) files)) (DaemonLog.carry a (a + 1) recs) [] acknowledged kept attempted :=
  {held with
    laid := held.laid.carry within
    contiguous := (held.laid.carry_suffix within free).trans held.contiguous
    recent := fun _ none' => absurd none' (carry_keeps full (Nat.le_trans within o.bounds.2.2.2))}

theorem shift_apply : (Move.shift (n + 2)).apply files = put (n + 1) none (put (n + 2) (files (n + 1)) files) := by
  show (match files (n + 1) with | none => _ | some content => _) = _
  cases here : files (n + 1) with
  | none =>
    have same : put (n + 2) none files (n + 1) = none := by
      rw [put,if_neg (by omega),here]
    exact (put_same same).symm
  | some content => rfl

theorem Turn.step {moves rest : List Move} {m : Move} (turn : Turn o files recs moves) (first : moves = m :: rest)
    (held : Held o files recs [] acknowledged kept attempted) :
    ∃ recs', Held o (m.apply files) recs' [] acknowledged kept attempted ∧
      (rest = [] → m.apply files 0 = some (payload (recs' 0)) ∧ recs' 0 = []) ∧ (rest ≠ [] → Turn o (m.apply files) recs' rest) := by
  cases turn with
  | @chain n low within free full here =>
    match n,low with
    | 1,_ =>
      cases first
      refine ⟨_,held.carry within free full,nofun,fun _ => .create rfl rfl fun _ => ?_⟩
      simpa [DaemonLog.carry] using full
    | n + 2,_ =>
      cases first
      rw [shift_apply]
      refine ⟨_,held.carry within free full,fun none' => by simp at none',fun _ => .chain (by omega) (by omega) (.inr ?_) ?_ ?_⟩
      · simp [DaemonLog.carry]
      · simpa [DaemonLog.carry] using full
      · simpa [DaemonLog.carry,put] using here
  | drop none' =>
    cases first
    refine ⟨_,{held with laid := held.laid.emptied none rfl,contiguous := ?_,recent := fun some' => absurd none' (by omega)},nofun,
      fun _ => .create rfl rfl fun some' => absurd none' (by omega)⟩
    have gone : ∀ i, 1 ≤ i → recs i = [] := fun i low => held.laid.absent low (by omega)
    simp [ordered,gone]
  | create away empty old =>
    cases first
    refine ⟨_,{held with laid := held.laid.emptied (some ((files 0).getD [])) (by rw [away]; rfl),contiguous := ?_,recent := ?_},
      fun _ => ⟨by simp [Move.apply,put,away,payload],rfl⟩,fun some' => absurd rfl some'⟩
    · simpa [ordered,empty] using held.contiguous
    · simpa [ordered,empty] using held.recent

theorem startWrite_inv {early : List Fields} (held : Held o s.files recs [] s.acknowledged s.kept early)
    (here : s.files 0 = some (payload (recs 0))) (begun : s.attempted = early ++ [r]) (written : Written o r)
    (fits : (payload (recs 0)).length + (line r).length ≤ o.maxBytes) : Inv o (startWrite (line r) s) := by
  have content : (s.files 0).getD [] = payload (recs 0) := by rw [here,Option.getD_some]
  have prior : (startWrite (line r) s).prior = payload (recs 0) := content
  refine ⟨recs,early,r,[],⟨?_,prior,?_,rfl,begun,written,fits⟩,rfl,by simp [line]⟩
  · rw [prior]
    show Held o (put 0 _ s.files) _ _ _ _ _
    rw [put_same here]
    exact held
  · rw [prior,List.append_nil]
    exact here

theorem append_inv (held : Held o s.files recs [] s.acknowledged s.kept s.attempted)
    (here : s.files 0 = some (payload (recs 0))) (written : (line r).length ≤ o.lineBytes → Written o r) :
    Inv o (append o r s) := by
  have content : ((s.files 0).getD []).length = (payload (recs 0)).length := by rw [here,Option.getD_some]
  unfold append
  simp only [content]
  split
  · exact ⟨recs,[],held.begun,o.bounds.2.1⟩
  · rename_i short
    have written := written (by omega)
    split
    · rename_i full
      refine ⟨recs,_,r,held,?_,rfl,written,rfl,by omega⟩
      have some' : recs 0 ≠ [] := by
        intro none'
        rw [none'] at full
        simp only [payload,List.flatMap_nil,List.length_nil] at full
        omega
      unfold rotate
      split
      · rename_i none'
        exact .drop none'
      · exact .chain (by omega) (Nat.le_refl _) (.inl rfl) some' here
    · rename_i fits
      exact startWrite_inv held here rfl written (by omega)

-- The invariant is kept by every event; openings and failures leave what they found readable.
theorem advance_inv {event : Event} (good : Inv o s) (next : advance o s event = some s') : Inv o s' := by
  obtain ⟨recs,tail,stopped,short⟩ := good.stopped
  unfold advance at next
  split at next
  · rename_i closed
    split at next <;> cases next
    rename_i files same
    obtain ⟨files',opened,laid,here⟩ := stopped.laid.reopens short
    rw [same] at opened
    cases opened
    exact ⟨recs,{stopped with laid := laid},here⟩
  · rename_i ready
    cases next
    rw [Inv,ready] at good
    obtain ⟨recs,held,here⟩ := good
    exact append_inv held here fun short => record_written (by simpa [line] using short)
  · cases next
    exact good
  · rename_i m moves payload rotating
    cases next
    rw [Inv,rotating] at good
    obtain ⟨recs,early,r,held,turn,begun,written,rfl,fits⟩ := good
    obtain ⟨recs',held',last,more⟩ := turn.step rfl held
    split
    · rename_i none'
      obtain ⟨here,empty⟩ := last none'
      exact startWrite_inv (s := {s with files := m.apply s.files}) held' here begun written (by simpa [empty,DaemonLog.payload] using fits)
    · rename_i some'
      exact ⟨recs',early,r,held',more some',begun,written,rfl,fits⟩
  · rename_i bytes before rest writing
    split at next
    · cases next
    · rename_i possible
      cases next
      rw [Inv,writing] at good
      obtain ⟨recs,early,r,out,midway,whole,part⟩ := good
      have out' : put 0 (some ((s.files 0).getD [] ++ rest.take bytes)) s.files =
          put 0 (some (s.prior ++ (out ++ rest.take bytes))) s.files := by
        rw [midway.current,Option.getD_some,List.append_assoc]
      have newest : s.attempted.getLast?.toList = [r] := by simp [midway.attempted]
      split
      · rename_i all
        have done : out ++ rest.take bytes = line r := by rw [List.take_of_length_le (by omega),whole]
        rw [done] at out'
        exact ⟨recs,s.kept,early,r,midway.writes out' rfl rfl rfl,congrArg (s.kept ++ ·) newest⟩
      · refine ⟨recs,early,r,_,midway.writes out' rfl rfl rfl,?_,?_⟩
        · rw [List.append_assoc,List.take_append_drop,whole]
        · intro none'
          have := congrArg List.length none'
          rw [List.length_drop,List.length_nil] at this
          omega
  · rename_i before written
    cases next
    rw [Inv,written] at good
    obtain ⟨recs,kept,early,r,midway,added⟩ := good
    have newest : s.attempted.getLast?.toList = [r] := by simp [midway.attempted]
    refine ⟨grown r recs,{midway.whole with contiguous := ?_,acknowledged := ?_,attempted := ?_,recent := ?_},?_⟩
    · exact added ▸ midway.whole.contiguous
    · show (s.acknowledged ++ _).Sublist s.kept
      rw [newest,added]
      exact midway.held.acknowledged.append (List.Sublist.refl _)
    · exact added ▸ midway.whole.attempted
    · exact added ▸ midway.whole.recent
    · show s.files 0 = _
      rw [midway.current,midway.prior,grown,if_pos rfl,payload_snoc]
  · cases next
    exact ⟨recs,tail,stopped,short⟩
  · rename_i truncates synced before rest writing
    cases next
    rw [Inv,writing] at good
    obtain ⟨recs,early,r,out,midway,_⟩ := good
    cases truncates with
    | false => exact ⟨_,tail,stopped,short⟩
    | true =>
      refine ⟨recs,[],?_,o.bounds.2.1⟩
      show Held o (put 0 _ s.files) _ _ _ _ s.attempted
      rw [midway.undone,midway.attempted]
      exact midway.held.begun
  · rename_i truncates synced before written
    cases next
    rw [Inv,written] at good
    obtain ⟨recs,kept,early,r,midway,added⟩ := good
    cases truncates with
    | false => exact ⟨_,tail,stopped,short⟩
    | true =>
      refine ⟨recs,[],?_,o.bounds.2.1⟩
      show Held o (put 0 _ s.files) _ _ _ s.kept.dropLast s.attempted
      rw [midway.undone,midway.attempted,added,List.dropLast_concat]
      exact midway.held.begun
  · cases next
  · cases next
    exact ⟨recs,tail,stopped,short⟩
  · cases next
    exact ⟨recs,tail,stopped,short⟩
  · cases next
    exact ⟨recs,tail,stopped,short⟩
  · cases next

theorem Inv.initial : Inv o {} := by
  refine ⟨fun _ => [],[],⟨⟨.inr ⟨rfl,rfl,rfl⟩,fun _ _ => .inr ⟨rfl,rfl⟩,nofun,fun _ _ => rfl,nofun,nofun⟩,?_,?_,?_,?_⟩,
    o.bounds.2.1⟩
  · exact List.suffix_refl _
  · exact List.Sublist.refl _
  · exact List.Sublist.refl _
  · exact fun _ _ => rfl

theorem Inv.restores {before : Nat} (good : Inv o s) {rest : Text} (out : s.phase = .writing before rest ∨ s.phase = .written before)
    (next : advance o s (.fail true synced) = some s') : s'.files 0 = some s.prior := by
  rcases out with phase | phase
  · rw [Inv,phase] at good
    obtain ⟨recs,early,r,out,midway,_⟩ := good
    simp only [advance,phase] at next
    cases next
    exact congrFun midway.undone 0
  · rw [Inv,phase] at good
    obtain ⟨recs,kept,early,r,midway,_⟩ := good
    simp only [advance,phase] at next
    cases next
    exact congrFun midway.undone 0

theorem Inv.sound (good : Inv o s) : Sound o s := by
  obtain ⟨recs,tail,held,short⟩ := good.stopped
  refine ⟨fun _ => ?_,held.acknowledged,held.attempted,?_,?_,held.laid.bounded,fun _ _ _ _ out next => good.restores out next⟩
  · obtain ⟨files,opened,laid,_⟩ := held.laid.reopens short
    exact ⟨files,opened,laid.reads.trans held.laid.reads.symm⟩
  · rw [held.laid.reads]
    exact held.contiguous
  · rw [held.laid.reads]
    exact held.recent

-- In whatever order appends, rotations, failures, crashes and openings come, and wherever they stop.
theorem reopened_log_keeps (events : List Event) (run : Run (advance o) Any {} events s) : Sound o s := by
  have good := run.invariant (Inv o) Inv.initial fun _ _ _ good _ next => advance_inv good next
  exact good.sound

section Examples

def demoOptions : Options := ⟨.text "1.0",200,1,150,by decide⟩
theorem zero_digits : ['0'] ≠ [] ∧ ['0'].all Char.isDigit = true := by decide

def demoSurroundings : Surroundings where
  pid := ⟨7,by decide⟩
  digest := fun _ => ⟨"00",by decide⟩
  ts := ⟨"t",by decide⟩
  epoch := 1
  places := ⟨['0'],zero_digits⟩
def demoAppend (event : String) : Event := .append demoSurroundings (.text event) []

-- Two records that do not fit in one file, the second cut after five bytes, and a new process.
def demoEvents : List Event :=
  [.open,demoAppend "start",.write 121,.acknowledge,demoAppend "stop",.move,.move,.write 5,.crash,.open]

theorem demo_log_keeps : ∃ s, Run (advance demoOptions) Any {} demoEvents s ∧ s.files 0 = some [] ∧
    readAll s.files = s.acknowledged ∧ s.acknowledged ≠ [] ∧ Sound demoOptions s := by
  have shown : ((follow (advance demoOptions) Any {} demoEvents).map fun s =>
      (s.files 0,decide (readAll s.files = s.acknowledged ∧ s.acknowledged ≠ []))) = some (some [],true) := by decide +kernel
  obtain ⟨s,path,fields⟩ := Option.map_eq_some_iff.mp shown
  simp only [Prod.mk.injEq,decide_eq_true_eq] at fields
  obtain ⟨current,same,some'⟩ := fields
  exact ⟨s,follow_exact.mp path,current,same,some',reopened_log_keeps demoEvents (follow_exact.mp path)⟩

-- An append that fails in its write, and whose ftruncate fails too; and a crash between the last
-- byte of a record and the answer.
def unrepairedEvents : List Event := [.open,demoAppend "start",.write 5,.fail false true]
def unansweredEvents : List Event := [.open,demoAppend "start",.write 121,.crash,.open]

theorem failed_repair_leaves_bytes :
    (∃ s, Run (advance demoOptions) Any {} unrepairedEvents s ∧ s.phase = .disabled .logRepairFailed ∧
      s.prior = [] ∧ (s.files 0).map List.length = some 5) ∧
    ∃ s, Run (advance demoOptions) Any {} unansweredEvents s ∧ s.acknowledged = [] ∧ (readAll s.files).length = 1 ∧
      ¬ readAll s.files <:+ s.acknowledged := by
  constructor
  · have shown : ((follow (advance demoOptions) Any {} unrepairedEvents).map fun s =>
        (s.phase,s.prior,(s.files 0).map List.length)) = some (.disabled .logRepairFailed,[],some 5) := by decide +kernel
    obtain ⟨s,path,fields⟩ := Option.map_eq_some_iff.mp shown
    simp only [Prod.mk.injEq] at fields
    exact ⟨s,follow_exact.mp path,fields⟩
  · have shown : ((follow (advance demoOptions) Any {} unansweredEvents).map fun s =>
        (s.acknowledged,(readAll s.files).length)) = some ([],1) := by decide +kernel
    obtain ⟨s,path,fields⟩ := Option.map_eq_some_iff.mp shown
    simp only [Prod.mk.injEq] at fields
    obtain ⟨none',one⟩ := fields
    refine ⟨s,follow_exact.mp path,none',one,fun suffix => ?_⟩
    rw [none',List.suffix_nil] at suffix
    simp [suffix] at one

end Examples

end AgentSideCar.DaemonLog
