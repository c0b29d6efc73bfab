import AgentSideCar.Library.Runs
import AgentSideCar.Replay.Daemon

namespace AgentSideCar.Replay
open Tail
variable {σ ω : Type}

-- The dsh side of a SessionTailer; `signature` is what stat told of the transcript at
-- the last replay, none where it is no regular file.
structure DshTailer (σ : Type) where
  lastSeq : Option Int
  initialized : Bool
  pagePending : Bool := false
  forceReplay : Bool := true
  signature : Option σ
  deriving DecidableEq

-- `rowSeq` is the integer seq of the session row's extra, if it has one.
def createTailer (fromStart : Bool) (rowSeq : Option Int) (signature : Option σ) : DshTailer σ where
  lastSeq := if fromStart then none else rowSeq
  initialized := fromStart || rowSeq.isSome
  signature := signature

-- The records of a page whose seq is above all before, and the newest seq.
def takeSeqs : Option Int → List (Record ω) → List (Record ω) × Option Int
  | newest,[] => ([],newest)
  | newest,record :: rest =>
    match seqOf record with
    | none => takeSeqs newest rest
    | some seq =>
      if newest.any (seq ≤ ·) then takeSeqs newest rest
      else (record :: (takeSeqs (some seq) rest).1,(takeSeqs (some seq) rest).2)

-- A poll, with the records it hands to the adapter's normalize. An exception of the
-- replay is noted and forces the next one.
def pollDsh [DecidableEq σ] (maxRecords : Nat) (replayed : Option Int → Option (ReplayPage (Record ω))) (signature : Option σ)
    (s : DshTailer σ) : DshTailer σ × List (Record ω) :=
  if s.forceReplay = false ∧ s.pagePending = false ∧ signature ≠ none ∧ signature = s.signature then (s,[])
  else match replayed s.lastSeq with
    | none => ({s with
        pagePending := false
        forceReplay := true},[])
    | some page =>
      let taken := takeSeqs s.lastSeq page.records
      ({lastSeq := taken.2
        initialized := true
        pagePending := decide (maxRecords ≤ page.records.length) && decide (taken.2 ≠ s.lastSeq)
        forceReplay := false
        signature := signature},if s.initialized then taken.1 else [])

-- One look at a transcript: its signature, what zstd decodes of it (none where it cannot
-- be started), and the turns of a scan at that time.
structure DshLook (σ : Type) where
  signature : Option σ
  stream : Option Bytes
  turns : List Turn

section Polls
variable (loads : Bytes → Loaded (Record ω)) (b : Budget)

def pollAt [DecidableEq σ] (look : DshLook σ) (s : DshTailer σ) : DshTailer σ × List (Record ω) :=
  pollDsh b.maxRecords (replayDshEvents loads b look.stream look.turns) look.signature s

def advanceDsh [DecidableEq σ] (s : DshTailer σ) (look : DshLook σ) : Option (DshTailer σ) := some (pollAt loads b look s).1

-- The lines a scan of a look can reach, and those it reaches in the turns it has.
def DshLook.lines (look : DshLook σ) : List Bytes :=
  match look.stream with
  | none => []
  | some stream => rowsRead (stream.take b.maxScanBytes) (decide (stream.length < b.maxScanBytes))

def DshLook.read (look : DshLook σ) : List Bytes :=
  match look.stream with
  | none => []
  | some stream => rowsRead (dshReach b look.turns stream 0).1 (dshReach b look.turns stream 0).2

-- The records a look retains for replay, and the rows a replay of it reads and may take.
def DshLook.retained (look : DshLook σ) : List (Record ω) :=
  ((selected b (dshSelect loads b none) (look.lines b) 0).filter fun row =>
    (seqOf row.2).isSome && fits b row).map Prod.snd

def DshLook.rows (look : DshLook σ) (lastSeq : Option Int) : List (Bytes × Record ω) :=
  selected b (dshSelect loads b lastSeq) (look.read b) 0

end Polls

def beyond (lastSeq : Option Int) (record : Record ω) : Bool := (seqOf record).any fun seq => lastSeq.all (· < seq)

-- The rows a page holds: as many as it may, as long as they fit together.
def room : Nat → Nat → List (Bytes × Record ω) → List (Bytes × Record ω)
  | _,_,[] => []
  | 0,_,_ => []
  | count+1,bytes,row :: rest => if row.1.length ≤ bytes then row :: room count (bytes - row.1.length) rest else []

-- The budget of a session's replay, as its adapter passes it on.
def dshBudget (maxRecords : Nat) : Budget := (Transcript.dsh []).budget maxRecords

variable {loads : Bytes → Loaded (Record ω)} {b : Budget}

theorem beyond_some (cursor : Int) (record : Record ω) : beyond (some cursor) record = (seqOf record).any (cursor < ·) := by
  simp [beyond]

theorem dshRows_beyond (lines : List Bytes) (lastSeq : Option Int) (ordinal : Nat) :
    selected b (dshSelect loads b lastSeq) lines ordinal =
      (selected b (dshSelect loads b none) lines ordinal).filter fun row => lastSeq.isNone || beyond lastSeq row.2 := by
  cases lastSeq with
  | none => exact (List.filter_eq_self.mpr fun _ _ => rfl).symm
  | some cursor =>
    rw [dshRows_after]
    refine List.filter_congr fun row _ => ?_
    rw [beyond_some]
    rfl

theorem dshRows_plain (lines : List Bytes) (lastSeq : Option Int) (ordinal : Nat) :
    ∀ row ∈ selected b (dshSelect loads b lastSeq) lines ordinal, 0 < row.1.length ∧ row.1.length ≤ b.maxLineBytes := by
  induction lines generalizing ordinal with
  | nil => intro row inside; cases inside
  | cons line rest ih =>
    intro row inside
    rw [selected] at inside
    split at inside
    · exact ih (ordinal + 1) row inside
    · rename_i short
      split at inside
      · rename_i taken
        rcases List.mem_cons.mp inside with rfl | later
        · refine ⟨List.length_pos_iff.mpr fun empty => ?_,by simpa using short⟩
          simp only at empty
          subst empty
          rw [dshSelect_blank] at taken
          cases taken
        · exact ih (ordinal + 1) row later
      · exact ih (ordinal + 1) row inside

theorem room_begins (count bytes : Nat) (rows : List (Bytes × Record ω)) : room count bytes rows <+: rows := by
  induction rows generalizing count bytes with
  | nil => cases count <;> exact List.prefix_rfl
  | cons row rest ih =>
    cases count with
    | zero => exact List.nil_prefix
    | succ count =>
      rw [room]
      split
      · exact (List.prefix_cons_inj row).mpr (ih _ _)
      · exact List.nil_prefix

theorem room_zero (rows : List (Bytes × Record ω)) (some' : ∀ row ∈ rows, 0 < row.1.length) (count : Nat) :
    room count 0 rows = [] := by
  cases rows with
  | nil => cases count <;> rfl
  | cons row rest =>
    cases count with
    | zero => rfl
    | succ count => exact if_neg (by have := some' row List.mem_cons_self; omega)

theorem takeRows_room (rows : List (Bytes × Record ω)) (s : Taking (Record ω)) (few : s.records.length < b.maxRecords)
    (light : s.retained ≤ b.maxRetainedBytes) (plain : ∀ row ∈ rows, 0 < row.1.length)
    (opens : s.records = [] → ∀ row ∈ rows, row.1.length ≤ b.maxRetainedBytes - s.retained) :
    takeRows b rows s =
        .full (s.records ++ (room (b.maxRecords - s.records.length) (b.maxRetainedBytes - s.retained) rows).map Prod.snd) ∨
      ∃ retained, takeRows b rows s = .going
        ⟨s.records ++ (room (b.maxRecords - s.records.length) (b.maxRetainedBytes - s.retained) rows).map Prod.snd,retained⟩ := by
  induction rows generalizing s with
  | nil =>
    refine .inr ⟨s.retained,?_⟩
    rw [room,List.map_nil,List.append_nil]
    rfl
  | cons row rest ih =>
    obtain ⟨left,more⟩ : ∃ left, b.maxRecords - s.records.length = left + 1 := ⟨b.maxRecords - s.records.length - 1,by omega⟩
    rw [more,takeRows,takeRecord,room]
    by_cases large : b.maxRetainedBytes - s.retained < row.1.length
    · have useful : s.records ≠ [] := fun empty => by
        have := opens empty row List.mem_cons_self
        omega
      rw [if_pos large,if_neg useful,if_neg (by omega)]
      exact .inl (by simp [Progress.bind])
    · have later : ∀ row ∈ rest, 0 < row.1.length := fun r inside => plain r (List.mem_cons_of_mem _ inside)
      have after : b.maxRetainedBytes - (s.retained + row.1.length) = b.maxRetainedBytes - s.retained - row.1.length := by omega
      have within : row.1.length ≤ b.maxRetainedBytes - s.retained := by omega
      rw [if_neg large,if_pos within]
      simp only [List.length_append,List.length_singleton]
      by_cases filled : b.maxRecords ≤ s.records.length + 1 ∨ b.maxRetainedBytes ≤ s.retained + row.1.length
      · rw [if_pos filled]
        have none' : room left (b.maxRetainedBytes - s.retained - row.1.length) rest = [] := by
          rcases filled with full | heavy
          · rw [show left = 0 by omega]
            cases rest <;> rfl
          · rw [show b.maxRetainedBytes - s.retained - row.1.length = 0 by omega]
            exact room_zero rest later left
        exact .inl (by simp [none',Progress.bind])
      · rw [if_neg filled]
        have left_exact : b.maxRecords - (s.records.length + 1) = left := by omega
        have next := ih ⟨s.records ++ [row.2],s.retained + row.1.length⟩
          (by simp only [List.length_append,List.length_singleton]; omega) (by simp only; omega) later (by simp)
        simp only [List.length_append,List.length_singleton,left_exact,after,List.append_assoc] at next
        simpa [Progress.bind] using next

theorem takeLines_either {select : Nat → Bytes → Selected ρ} (lines : List Bytes) (ordinal : Nat) (s : Taking ρ) :
    takeLines b select lines ordinal s = .raised ∨
      takeLines b select lines ordinal s = takeRows b (selected b select lines ordinal) s := by
  induction lines generalizing ordinal s with
  | nil => exact .inr rfl
  | cons line rest ih =>
    rw [takeLines,selected]
    split
    · exact ih _ _
    · rw [consume]
      cases chosen : select (ordinal + 1) line with
      | raises => exact .inl rfl
      | skip => exact ih _ _
      | take record =>
        simp only
        rw [takeRows]
        cases taken : takeRecord b line record s with
        | raised => exact .inl rfl
        | full records => exact .inr rfl
        | going next => exact ih _ _

theorem read_begins (look : DshLook σ) : look.read b <+: look.lines b := by
  unfold DshLook.read DshLook.lines
  cases look.stream with
  | none => exact List.prefix_rfl
  | some stream =>
    simp only
    obtain ⟨begins,ended⟩ := @dshReach_begins b look.turns stream 0
    obtain ⟨within,below⟩ := @dshReach_within b look.turns stream 0 (Nat.zero_le _)
    generalize dshReach b look.turns stream 0 = reach at begins ended within below ⊢
    obtain ⟨seen,eof⟩ := reach
    cases eof with
    | true =>
      have short := below rfl
      simp only [Nat.zero_add] at short
      rw [ended rfl,List.take_of_length_le (by omega),decide_eq_true short]
    | false =>
      have part : seen <+: stream.take b.maxScanBytes :=
        List.prefix_take_iff.mpr ⟨begins,by simpa using within⟩
      rw [rowsRead,rowsRead]
      simpa using (Lines.lines_begin part).trans (List.prefix_append _ _)

theorem rows_retained (roomy : b.maxLineBytes ≤ b.maxRetainedBytes) (look : DshLook σ) (row : Bytes × Record ω)
    (inside : row ∈ look.rows loads b lastSeq) (some' : (seqOf row.2).isSome = true) : row.2 ∈ look.retained loads b := by
  have reached : row ∈ selected b (dshSelect loads b lastSeq) (look.lines b) 0 := by
    obtain ⟨late,whole⟩ := read_begins (b := b) look
    rw [← whole,selected_append]
    exact List.mem_append_left _ inside
  have short := dshRows_plain _ _ _ row reached
  rw [dshRows_beyond] at reached
  refine List.mem_map.mpr ⟨row,List.mem_filter.mpr ⟨(List.mem_filter.mp reached).1,?_⟩,rfl⟩
  simp only [some',Bool.true_and,fits,decide_eq_true_eq]
  omega

def DshLook.page (loads : Bytes → Loaded (Record ω)) (b : Budget) (look : DshLook σ) (lastSeq : Option Int) :
    List (Bytes × Record ω) := room b.maxRecords b.maxRetainedBytes (look.rows loads b lastSeq)

theorem taken_room (roomy : b.maxLineBytes ≤ b.maxRetainedBytes) (some' : 0 < b.maxRecords) (lines : List Bytes)
    (lastSeq : Option Int) (eof : Bool) :
    ∃ exhausted, (match takeRows b (selected b (dshSelect loads b lastSeq) lines 0) {} with
      | .raised => none
      | .full records => some ⟨records,false⟩
      | .going taking => some ⟨taking.records,eof⟩ : Option (ReplayPage (Record ω))) =
        some ⟨(room b.maxRecords b.maxRetainedBytes (selected b (dshSelect loads b lastSeq) lines 0)).map Prod.snd,exhausted⟩ := by
  have plain := @dshRows_plain _ loads b lines lastSeq 0
  rcases takeRows_room _ {} some' (Nat.zero_le _) (fun row inside => (plain row inside).1)
    (fun _ row inside => (plain row inside).2.trans roomy) with full | ⟨retained,going⟩
  · exact ⟨false,by rw [full]; rfl⟩
  · exact ⟨eof,by rw [going]; rfl⟩

theorem replay_room (roomy : b.maxLineBytes ≤ b.maxRetainedBytes) (scans : 0 < b.maxScanBytes ∧ 0 < b.maxRetainedBytes)
    (look : DshLook σ) (lastSeq : Option Int) :
    (replayDshEvents loads b look.stream look.turns lastSeq = none ∧ ∃ line ∈ look.read b, ¬ Spoken loads b line) ∨
      ∃ exhausted, replayDshEvents loads b look.stream look.turns lastSeq =
        some ⟨(look.page loads b lastSeq).map Prod.snd,exhausted⟩ := by
  rcases Nat.eq_zero_or_pos b.maxRecords with none' | some'
  · refine .inr ⟨true,?_⟩
    rw [replayDshEvents.eq_def,if_pos (by omega),DshLook.page,none']
    cases look.rows loads b lastSeq <;> rfl
  unfold DshLook.page DshLook.rows DshLook.read
  cases here : look.stream with
  | none =>
    refine .inr ⟨true,?_⟩
    rw [replayDshEvents,if_neg (by omega)]
    simp [selected,room]
  | some stream =>
    simp only
    rw [replayDsh_reach loads look.turns stream lastSeq ⟨some',scans⟩]
    generalize dshReach b look.turns stream 0 = reach
    by_cases spoken : ∀ line ∈ rowsRead reach.1 reach.2, Spoken loads b line
    · rw [takeLines_selected _ _ _ (dshSelect_quiet _ _ _ spoken)]
      exact .inr (taken_room roomy some' _ lastSeq _)
    · rcases takeLines_either (rowsRead reach.1 reach.2) 0 {} with raised | taken
      · rw [raised]
        exact .inl ⟨rfl,by simpa using spoken⟩
      · rw [taken]
        exact .inr (taken_room roomy some' _ lastSeq _)

section Seqs
variable {newest : Option Int} {records : List (Record ω)}

theorem beyond_none (record : Record ω) : beyond none record = (seqOf record).isSome := by
  cases carried : seqOf record <;> simp [beyond,carried]

theorem beyond_seq (carried : seqOf record = some seq) : beyond newest record = !newest.any (seq ≤ ·) := by
  cases newest with
  | none => simp [beyond,carried]
  | some old => by_cases above : old < seq <;> simp [beyond,carried,above,Int.not_lt.mp,Int.not_le.mpr]

theorem beyond_rises (above : newest.any (seq ≤ ·) = false) (new : beyond (some seq) record = true) :
    beyond newest record = true := by
  rw [beyond_some] at new
  cases carried : seqOf record with
  | none => simp [carried] at new
  | some q =>
    rw [beyond_seq carried]
    cases newest with
    | none => rfl
    | some old =>
      simp only [carried,Option.any_some,decide_eq_true_eq,decide_eq_false_iff_not] at new above
      simp only [Option.any_some,Bool.not_eq_true',decide_eq_false_iff_not]
      omega

theorem takeSeqs_rises (newest : Option Int) (records : List (Record ω)) (record : Record ω)
    (new : beyond (takeSeqs newest records).2 record = true) : beyond newest record = true := by
  induction records generalizing newest with
  | nil => exact new
  | cons first rest ih =>
    unfold takeSeqs at new
    cases carried : seqOf first with
    | none =>
      rw [carried] at new
      exact ih newest new
    | some seq =>
      rw [carried] at new
      simp only at new
      split at new
      · exact ih newest new
      · rename_i above
        exact beyond_rises (by simpa using above) (ih (some seq) new)

theorem takeSeqs_covers (newest : Option Int) (records : List (Record ω)) :
    ∀ record ∈ records, beyond (takeSeqs newest records).2 record = false := by
  induction records generalizing newest with
  | nil => intro record inside; cases inside
  | cons first rest ih =>
    intro record inside
    rw [takeSeqs]
    cases carried : seqOf first with
    | none =>
      rcases List.mem_cons.mp inside with rfl | later
      · simp [beyond,carried]
      · exact ih newest record later
    | some seq =>
      simp only
      rcases List.mem_cons.mp inside with rfl | later
      · rw [Bool.eq_false_iff]
        intro new
        split at new
        · rename_i old
          have still := takeSeqs_rises _ _ _ new
          rw [beyond_seq carried,old] at still
          cases still
        · have still := takeSeqs_rises _ _ _ new
          simp [beyond_seq carried] at still
      · split
        · exact ih newest record later
        · exact ih (some seq) record later

theorem takeSeqs_whole (newest : Option Int) (page later : List (Record ω))
    (new : ∀ record ∈ page ++ later, beyond newest record = true)
    (rising : ((page ++ later).filterMap seqOf).Pairwise (· < ·)) :
    (takeSeqs newest page).1 = page ∧ (page ++ later).filter (beyond (takeSeqs newest page).2) = later := by
  induction page generalizing newest with
  | nil => exact ⟨rfl,List.filter_eq_self.mpr new⟩
  | cons first rest ih =>
    have own := new first List.mem_cons_self
    cases carried : seqOf first with
    | none => simp [beyond,carried] at own
    | some seq =>
      rw [beyond_seq carried,Bool.not_eq_true'] at own
      rw [List.cons_append,List.filterMap_cons,carried] at rising
      obtain ⟨above,after⟩ := List.pairwise_cons.mp rising
      obtain ⟨whole,remaining⟩ := ih (some seq) (fun record inside => by
        have some' := new record (List.mem_cons_of_mem _ inside)
        cases its : seqOf record with
        | none => simp [beyond,its] at some'
        | some q =>
          have := above q (List.mem_filterMap.mpr ⟨record,inside,its⟩)
          simpa [beyond,its] using this) after
      have covered := takeSeqs_covers newest (first :: rest) first List.mem_cons_self
      have step : takeSeqs newest (first :: rest) =
          (first :: (takeSeqs (some seq) rest).1,(takeSeqs (some seq) rest).2) := by
        rw [takeSeqs,carried]
        simp only [own,Bool.false_eq_true,if_false]
      rw [step] at covered ⊢
      simp only at covered ⊢
      rw [whole,List.cons_append,List.filter_cons_of_neg (by simpa using covered),remaining]
      exact ⟨rfl,rfl⟩

theorem takeSeqs_carried (newest : Option Int) (records : List (Record ω)) :
    takeSeqs newest (records.filter fun record => (seqOf record).isSome) = takeSeqs newest records := by
  induction records generalizing newest with
  | nil => rfl
  | cons first rest ih =>
    cases carried : seqOf first with
    | none =>
      rw [List.filter_cons_of_neg (by simp [carried]),ih,takeSeqs,carried]
    | some seq =>
      rw [List.filter_cons_of_pos (by simp [carried]),takeSeqs,takeSeqs,carried]
      simp only [ih]

theorem takeSeqs_moves (inside : record ∈ records) (new : beyond newest record = true) :
    (takeSeqs newest records).2 ≠ newest := by
  intro still
  have covered := takeSeqs_covers newest records record inside
  rw [still,new] at covered
  cases covered

end Seqs

theorem page_begins (roomy : b.maxLineBytes ≤ b.maxRetainedBytes) (look : DshLook σ) (lastSeq : Option Int) :
    ((look.page loads b lastSeq).map Prod.snd).filter (fun record => (seqOf record).isSome) <+:
      (look.retained loads b).filter (beyond lastSeq) := by
  have part : look.page loads b lastSeq <+: selected b (dshSelect loads b lastSeq) (look.lines b) 0 := by
    refine (room_begins _ _ _).trans ?_
    obtain ⟨late,whole⟩ := read_begins (b := b) look
    rw [DshLook.rows,← whole,selected_append]
    exact List.prefix_append _ _
  have records : (look.retained loads b).filter (beyond lastSeq) =
      ((selected b (dshSelect loads b lastSeq) (look.lines b) 0).map Prod.snd).filter fun record => (seqOf record).isSome := by
    have plain := @dshRows_plain _ loads b (look.lines b) none 0
    rw [dshRows_beyond,DshLook.retained,List.filter_map,List.filter_map,List.filter_filter,List.filter_filter]
    congr 1
    refine List.filter_congr fun row inside => ?_
    have light : fits b row = true := by
      have := (plain row inside).2
      simp only [fits,decide_eq_true_eq]
      omega
    simp only [Function.comp,light,Bool.and_true]
    cases carried : seqOf row.2 with
    | none => simp [beyond,carried]
    | some seq => cases lastSeq <;> simp [beyond,carried]
  rw [records]
  exact (part.map _).filter _

-- What a poll makes of a page of records.
def takePage (maxRecords : Nat) (records : List (Record ω)) (signature : Option σ) (s : DshTailer σ) :
    DshTailer σ × List (Record ω) :=
  let taken := takeSeqs s.lastSeq records
  ({lastSeq := taken.2
    initialized := true
    pagePending := decide (maxRecords ≤ records.length) && decide (taken.2 ≠ s.lastSeq)
    forceReplay := false
    signature := signature},if s.initialized then taken.1 else [])

abbrev Skips (look : DshLook σ) (s : DshTailer σ) : Prop :=
  s.forceReplay = false ∧ s.pagePending = false ∧ look.signature ≠ none ∧ look.signature = s.signature

abbrev Raises (loads : Bytes → Loaded (Record ω)) (b : Budget) (look : DshLook σ) (lastSeq : Option Int) : Prop :=
  replayDshEvents loads b look.stream look.turns lastSeq = none

-- A poll is skipped, notes an exception, or takes the page of its look.
inductive Polled (loads : Bytes → Loaded (Record ω)) (b : Budget) (look : DshLook σ) (s : DshTailer σ) :
    DshTailer σ × List (Record ω) → Prop where
  | skipped : Skips look s → Polled loads b look s (s,[])
  | raised : ¬ Skips look s → Raises loads b look s.lastSeq → (∃ line ∈ look.read b, ¬ Spoken loads b line) →
      Polled loads b look s ({s with
        pagePending := false
        forceReplay := true},[])
  | paged : ¬ Skips look s → ¬ Raises loads b look s.lastSeq →
      Polled loads b look s (takePage b.maxRecords ((look.page loads b s.lastSeq).map Prod.snd) look.signature s)

theorem poll_polled [DecidableEq σ] (roomy : b.maxLineBytes ≤ b.maxRetainedBytes)
    (scans : 0 < b.maxScanBytes ∧ 0 < b.maxRetainedBytes) (look : DshLook σ) (s : DshTailer σ) :
    Polled loads b look s (pollAt loads b look s) := by
  rw [pollAt,pollDsh]
  split
  · rename_i skips
    exact .skipped skips
  · rename_i fresh
    rcases replay_room roomy scans look s.lastSeq with ⟨raised,bad⟩ | ⟨exhausted,paged⟩
    · rw [raised]
      exact .raised fresh raised bad
    · rw [paged]
      exact .paged fresh (by simp [Raises,paged])

end AgentSideCar.Replay
