import AgentSideCar.Replay.Jsonl

namespace AgentSideCar.Replay
open Tail
variable {ω ρ : Type}

-- One turn of the decoder's loop: the deadline has passed, nothing is ready yet, the
-- process is gone with nothing ready, the read fails, or some bytes are ready.
inductive Turn where
  | expired
  | idle
  | gone
  | failed
  | ready (more : Nat)
  deriving DecidableEq

def dshChunkBytes : Nat := 64 * 1024

def dshSelect (loads : Bytes → Loaded (Record ω)) (b : Budget) (afterSeq : Option Int) (_ : Nat) (raw : Bytes) :
    Selected (Record ω) :=
  if raw.all isSpace || decide (b.maxLineBytes < raw.length) then .skip
  else match loads raw with
    | .raises => .raises
    | .other => .skip
    | .object record =>
      match afterSeq with
      | none => .take record
      | some cursor =>
        match seqOf record with
        | some seq => if seq ≤ cursor then .skip else .take record
        | none => .skip

def dshLoop (b : Budget) (select : Nat → Bytes → Selected ρ) :
    List Turn → Bytes → Nat → Frame ρ → Progress ρ (Frame ρ × Bool)
  | [],_,_,f => .going (f,false)
  | turn :: later,rest,scanned,f =>
    if ¬ scanned < b.maxScanBytes then .going (f,false)
    else match turn with
      | .expired => .going (f,false)
      | .gone => .going (f,false)
      | .failed => .going (f,false)
      | .idle => dshLoop b select later rest scanned f
      | .ready more =>
        let chunk := rest.take (min (more + 1) (min dshChunkBytes (b.maxScanBytes - scanned)))
        if chunk = [] then .going (f,true)
        else (readChunk b select chunk.length chunk f).bind
          (dshLoop b select later (rest.drop chunk.length) (scanned + chunk.length))

-- The decoded stream, if zstd could be started on the file.
def replayDshEvents (loads : Bytes → Loaded (Record ω)) (b : Budget) (look : Option Bytes) (turns : List Turn)
    (afterSeq : Option Int) : Option (ReplayPage (Record ω)) :=
  if b.maxScanBytes = 0 ∨ b.maxRetainedBytes = 0 ∨ b.maxRecords = 0 then some ⟨[],true⟩
  else match look with
    | none => some ⟨[],true⟩
    | some stream =>
      let select := dshSelect loads b afterSeq
      match dshLoop b select turns stream 0 {} with
      | .raised => none
      | .full records => some ⟨records,false⟩
      | .going (f,eof) =>
        -- At the end of the stream the open row is a record like any other.
        if eof ∧ f.pending ≠ [] ∧ f.droppingLine = false then
          match consume b select f.ordinal f.pending f.taking with
          | .raised => none
          | .full records => some ⟨records,false⟩
          | .going taking => some ⟨taking.records,true⟩
        else some ⟨f.taking.records,eof⟩

variable {b : Budget} {select : Nat → Bytes → Selected ρ}

def readies (turns : List Turn) : Nat := turns.countP fun | .ready _ => true | _ => false

-- No turn that ends the scan, and more reads than the stream has bytes.
def Patient (turns : List Turn) (stream : Bytes) : Prop :=
  (∀ turn ∈ turns, turn ≠ .expired ∧ turn ≠ .gone ∧ turn ≠ .failed) ∧ stream.length < readies turns

-- What a scan reads as long as its page does not fill up, and whether it meets the end.
def dshReach (b : Budget) : List Turn → Bytes → Nat → Bytes × Bool
  | [],_,_ => ([],false)
  | turn :: later,rest,scanned =>
    if ¬ scanned < b.maxScanBytes then ([],false)
    else match turn with
      | .expired => ([],false)
      | .gone => ([],false)
      | .failed => ([],false)
      | .idle => dshReach b later rest scanned
      | .ready more =>
        let chunk := rest.take (min (more + 1) (min dshChunkBytes (b.maxScanBytes - scanned)))
        if chunk = [] then ([],true)
        else
          let reach := dshReach b later (rest.drop chunk.length) (scanned + chunk.length)
          (chunk ++ reach.1,reach.2)

theorem dshLoop_reach (select : Nat → Bytes → Selected ρ) (turns : List Turn) (seen rest : Bytes) (taking : Taking ρ) :
    dshLoop b select turns rest seen.length (frameOf b seen taking) =
      (takeLines b select (fresh seen (dshReach b turns rest seen.length).1) (Lines.lines newline seen).length taking).bind
        fun s => .going (frameOf b (seen ++ (dshReach b turns rest seen.length).1) s,(dshReach b turns rest seen.length).2) := by
  have stops : ∀ eof, (Progress.going (frameOf b seen taking,eof) : Progress ρ (Frame ρ × Bool)) =
      (takeLines b select (fresh seen []) (Lines.lines newline seen).length taking).bind
        fun s => .going (frameOf b (seen ++ []) s,eof) := by
    intro eof
    simp [fresh,Lines.feed,takeLines,Progress.bind]
  induction turns generalizing seen rest taking with
  | nil => exact stops false
  | cons turn later ih =>
    rw [dshLoop.eq_def,dshReach.eq_def]
    simp only
    split
    · exact stops false
    cases turn with
    | expired => exact stops false
    | gone => exact stops false
    | failed => exact stops false
    | idle => exact ih seen rest taking stops
    | ready more =>
      simp only
      generalize rest.take (min (more + 1) (min dshChunkBytes (b.maxScanBytes - seen.length))) = chunk
      split
      · exact stops true
      · have lines : (Lines.lines newline (seen ++ chunk)).length =
            (Lines.lines newline seen).length + (fresh seen chunk).length := by
          rw [Lines.lines_append,List.length_append]; rfl
        rw [chunk_exact,bind_bind,fresh_append,takeLines_append,bind_bind,← lines]
        congr 1
        funext s
        have next := ih (seen ++ chunk) (rest.drop chunk.length) s (fun eof => by simp [fresh,Lines.feed,takeLines,Progress.bind])
        rw [List.length_append] at next
        simpa only [Progress.bind,List.append_assoc] using next

-- A turn that is ready reads nothing only at the end of the stream.
theorem read_empty {more scanned : Nat} (open' : scanned < b.maxScanBytes)
    (cut : rest.take (min (more + 1) (min dshChunkBytes (b.maxScanBytes - scanned))) = []) : rest = [] := by
  rw [List.take_eq_nil_iff] at cut
  have some' : 0 < dshChunkBytes := by decide
  exact cut.resolve_left (by omega)

theorem dshReach_begins (turns : List Turn) (rest : Bytes) (scanned : Nat) :
    (dshReach b turns rest scanned).1 <+: rest ∧
      ((dshReach b turns rest scanned).2 = true → (dshReach b turns rest scanned).1 = rest) := by
  induction turns generalizing rest scanned with
  | nil => exact ⟨List.nil_prefix,nofun⟩
  | cons turn later ih =>
    rw [dshReach.eq_def]
    simp only
    split
    · exact ⟨List.nil_prefix,nofun⟩
    cases turn with
    | expired => exact ⟨List.nil_prefix,nofun⟩
    | gone => exact ⟨List.nil_prefix,nofun⟩
    | failed => exact ⟨List.nil_prefix,nofun⟩
    | idle => exact ih rest scanned
    | ready more =>
      simp only
      generalize cut : rest.take (min (more + 1) (min dshChunkBytes (b.maxScanBytes - scanned))) = chunk
      split
      · rename_i empty
        subst empty
        exact ⟨List.nil_prefix,fun _ => (read_empty (by omega) cut).symm⟩
      · obtain ⟨rest',whole⟩ : chunk <+: rest := cut ▸ List.take_prefix _ _
        subst whole
        rw [List.drop_left]
        obtain ⟨begins,ended⟩ := ih rest' (scanned + chunk.length)
        exact ⟨(List.prefix_append_right_inj _).mpr begins,fun met => by rw [ended met]⟩

theorem dshReach_within (turns : List Turn) (rest : Bytes) (scanned : Nat) (below : scanned ≤ b.maxScanBytes) :
    scanned + (dshReach b turns rest scanned).1.length ≤ b.maxScanBytes ∧
      ((dshReach b turns rest scanned).2 = true → scanned + rest.length < b.maxScanBytes) := by
  induction turns generalizing rest scanned with
  | nil => exact ⟨below,nofun⟩
  | cons turn later ih =>
    rw [dshReach.eq_def]
    simp only
    split
    · exact ⟨below,nofun⟩
    rename_i open'
    cases turn with
    | expired => exact ⟨below,nofun⟩
    | gone => exact ⟨below,nofun⟩
    | failed => exact ⟨below,nofun⟩
    | idle => exact ih rest scanned below
    | ready more =>
      simp only
      generalize cut : rest.take (min (more + 1) (min dshChunkBytes (b.maxScanBytes - scanned))) = chunk
      split
      · rename_i empty
        subst empty
        rw [read_empty (by omega) cut]
        exact ⟨by simpa using below,fun _ => by simp only [List.length_nil]; omega⟩
      · have bound : scanned + chunk.length ≤ b.maxScanBytes := by
          rw [← cut,List.length_take]; omega
        obtain ⟨rest',whole⟩ : chunk <+: rest := cut ▸ List.take_prefix _ _
        subst whole
        rw [List.drop_left]
        obtain ⟨reach,ended⟩ := ih rest' (scanned + chunk.length) bound
        simp only [List.length_append]
        exact ⟨by omega,fun met => by have := ended met; omega⟩

theorem dshReach_patient (turns : List Turn) (rest : Bytes) (scanned : Nat) (patient : Patient turns rest)
    (below : scanned ≤ b.maxScanBytes) : dshReach b turns rest scanned =
      (rest.take (b.maxScanBytes - scanned),decide (scanned + rest.length < b.maxScanBytes)) := by
  induction turns generalizing rest scanned with
  | nil => simp [Patient,readies] at patient
  | cons turn later ih =>
    obtain ⟨quiet,reads⟩ := patient
    have after : ∀ turn ∈ later, turn ≠ .expired ∧ turn ≠ .gone ∧ turn ≠ .failed := fun turn inside =>
      quiet turn (List.mem_cons_of_mem _ inside)
    have here := quiet turn List.mem_cons_self
    rw [dshReach.eq_def]
    simp only
    split
    · rw [show b.maxScanBytes - scanned = 0 by omega,List.take_zero,decide_eq_false (by omega)]
    cases turn with
    | expired => exact absurd rfl here.1
    | gone => exact absurd rfl here.2.1
    | failed => exact absurd rfl here.2.2
    | idle => exact ih rest scanned ⟨after,by simpa [readies] using reads⟩ below
    | ready more =>
      simp only
      generalize cut : rest.take (min (more + 1) (min dshChunkBytes (b.maxScanBytes - scanned))) = chunk
      split
      · rename_i empty
        subst empty
        rw [read_empty (by omega) cut,List.take_nil,decide_eq_true (by simp only [List.length_nil]; omega)]
      · rename_i some'
        have bound : chunk.length ≤ b.maxScanBytes - scanned := by
          rw [← cut,List.length_take]; omega
        obtain ⟨rest',whole⟩ : chunk <+: rest := cut ▸ List.take_prefix _ _
        have positive := List.length_pos_iff.mpr some'
        subst whole
        simp only [readies,List.countP_cons,List.length_append,if_true] at reads
        rw [List.drop_left,ih rest' _ ⟨after,by simp only [readies]; omega⟩ (by omega),List.take_append,
          List.take_of_length_le bound,List.length_append,Nat.add_assoc,Nat.sub_sub]

-- The lines a scan that met the end of the stream has taken: the open row is one of them.
def rowsRead (seen : Bytes) (eof : Bool) : List Bytes :=
  Lines.lines newline seen ++ if eof then [Lines.openRow newline seen] else []

theorem dshSelect_blank (loads : Bytes → Loaded (Record ω)) (afterSeq : Option Int) (ordinal : Nat) :
    dshSelect loads b afterSeq ordinal [] = .skip := rfl

theorem replayDsh_reach (loads : Bytes → Loaded (Record ω)) (turns : List Turn) (stream : Bytes) (afterSeq : Option Int)
    (positive : 0 < b.maxRecords ∧ 0 < b.maxScanBytes ∧ 0 < b.maxRetainedBytes) :
    replayDshEvents loads b (some stream) turns afterSeq =
      match takeLines b (dshSelect loads b afterSeq)
        (rowsRead (dshReach b turns stream 0).1 (dshReach b turns stream 0).2) 0 {} with
      | .raised => none
      | .full records => some ⟨records,false⟩
      | .going taking => some ⟨taking.records,(dshReach b turns stream 0).2⟩ := by
  have scanned := @dshLoop_reach _ b (dshSelect loads b afterSeq) turns [] stream {}
  rw [frameOf_nil,List.length_nil] at scanned
  rw [replayDshEvents,if_neg (by omega)]
  generalize dshReach b turns stream 0 = reach at scanned ⊢
  obtain ⟨seen,eof⟩ := reach
  simp only [scanned,fresh_nil,List.nil_append]
  rw [rowsRead,takeLines_append,show (Lines.lines newline ([] : Bytes)).length = 0 from rfl]
  cases taken : takeLines b (dshSelect loads b afterSeq) (Lines.lines newline seen) 0 {} with
  | raised => rfl
  | full records => rfl
  | going s =>
    cases eof with
    | false => simp [Progress.bind,takeLines,frameOf]
    | true =>
      simp only [Progress.bind,if_true,takeLines_single,true_and,frameOf]
      by_cases long : b.maxLineBytes < (Lines.openRow newline seen).length
      · rw [heldRow_long long,if_pos long,if_neg (by simp)]
      · rw [heldRow_short (by omega),if_neg long]
        simp only [and_true]
        split
        · rw [consume,consume]
          unfold dshSelect
          rfl
        · rename_i empty
          rw [not_not.mp empty,consume,dshSelect_blank]

theorem replayDsh_rows (loads : Bytes → Loaded (Record ω)) (turns : List Turn) (stream : Bytes) (afterSeq : Option Int)
    (positive : 0 < b.maxRecords ∧ 0 < b.maxScanBytes ∧ 0 < b.maxRetainedBytes) :
    ∃ seen eof, seen <+: stream ∧ (eof = true → seen = stream) ∧
      (Patient turns stream ∧ stream.length < b.maxScanBytes → eof = true) ∧
      replayDshEvents loads b (some stream) turns afterSeq =
        match takeLines b (dshSelect loads b afterSeq) (rowsRead seen eof) 0 {} with
        | .raised => none
        | .full records => some ⟨records,false⟩
        | .going taking => some ⟨taking.records,eof⟩ := by
  obtain ⟨begins,ended⟩ := @dshReach_begins b turns stream 0
  refine ⟨_,_,begins,ended,fun reaches => ?_,?_⟩
  · rw [dshReach_patient turns stream 0 reaches.1 (Nat.zero_le _)]
    simpa using reaches.2
  · exact replayDsh_reach loads turns stream afterSeq positive

variable {loads : Bytes → Loaded (Record ω)}

-- The records a decoded stream retains for replay: the objects that carry a seq.
def dshRecords (loads : Bytes → Loaded (Record ω)) (b : Budget) (stream : Bytes) : List (Record ω) :=
  ((selected b (dshSelect loads b none) (rowsRead stream true) 0).filter fun row =>
    (seqOf row.2).isSome && fits b row).map Prod.snd

theorem dshSelect_quiet (lines : List Bytes) (afterSeq : Option Int) (ordinal : Nat)
    (spoken : ∀ line ∈ lines, Spoken loads b line) : Quiet b (dshSelect loads b afterSeq) lines ordinal := by
  induction lines generalizing ordinal with
  | nil => trivial
  | cons line rest ih =>
    refine ⟨fun short => ?_,ih (ordinal + 1) fun l inside => spoken l (List.mem_cons_of_mem _ inside)⟩
    rw [dshSelect]
    split
    · simp
    · rename_i plain
      simp only [Bool.or_eq_true,decide_eq_true_eq,not_or,Bool.not_eq_true] at plain
      have loud := spoken line List.mem_cons_self short plain.1
      cases loaded : loads line with
      | raises => exact absurd loaded loud
      | other => simp
      | object record =>
        cases afterSeq with
        | none => simp
        | some cursor =>
          simp only
          cases seqOf record with
          | none => simp
          | some seq => by_cases old : seq ≤ cursor <;> simp [old]

theorem dshSelect_after (cursor : Int) (ordinal : Nat) (line : Bytes) : dshSelect loads b (some cursor) ordinal line =
    match dshSelect loads b none ordinal line with
    | .take record => if (seqOf record).any (cursor < ·) then .take record else .skip
    | chosen => chosen := by
  unfold dshSelect
  by_cases plain : (line.all isSpace || decide (b.maxLineBytes < line.length)) = true
  · simp [plain]
  · cases loaded : loads line with
    | raises => simp [plain]
    | other => simp [plain]
    | object record =>
      cases carried : seqOf record with
      | none => simp [plain,carried]
      | some seq =>
        by_cases old : seq ≤ cursor
        · simp [plain,carried,old]
        · simp [plain,carried,old,Int.not_le.mp old]

theorem dshRows_after (lines : List Bytes) (cursor : Int) (ordinal : Nat) :
    selected b (dshSelect loads b (some cursor)) lines ordinal =
      (selected b (dshSelect loads b none) lines ordinal).filter fun row => (seqOf row.2).any (cursor < ·) := by
  induction lines generalizing ordinal with
  | nil => rfl
  | cons line rest ih =>
    rw [selected,selected]
    split
    · exact ih (ordinal + 1)
    · rw [dshSelect_after]
      cases chosen : dshSelect loads b none (ordinal + 1) line with
      | skip => exact ih (ordinal + 1)
      | raises => exact ih (ordinal + 1)
      | take record =>
        by_cases new : (seqOf record).any (cursor < ·) = true
        · simp only [if_pos new]
          rw [List.filter_cons_of_pos (by exact new),ih (ordinal + 1)]
        · simp only [if_neg new]
          rw [List.filter_cons_of_neg (by exact new),ih (ordinal + 1)]

theorem dshRecords_after (stream : Bytes) (cursor : Int) :
    ((selected b (dshSelect loads b (some cursor)) (rowsRead stream true) 0).filter (fits b)).map Prod.snd =
      Cursor.after mark (dshRecords loads b stream) cursor := by
  rw [dshRows_after,Cursor.after,dshRecords,List.filter_map,List.filter_filter,List.filter_filter]
  congr 1
  apply List.filter_congr
  intro row _
  simp only [Function.comp,mark]
  rcases Option.eq_none_or_eq_some (seqOf row.2) with absent | ⟨seq,carried⟩
  · simp [absent]
  · simp [carried,Bool.and_comm]

theorem replayDsh_serves (positive : 0 < b.maxRecords ∧ 0 < b.maxScanBytes ∧ 0 < b.maxRetainedBytes) (stream : Bytes)
    (spoken : ∀ line ∈ rowsRead stream true, Spoken loads b line) (turns : List Turn) (cursor : Int) :
    ∃ page, replayDshEvents loads b (some stream) turns (some cursor) = some page ∧
      Serves (dshRecords loads b stream) cursor (Patient turns stream ∧ stream.length < b.maxScanBytes) page := by
  obtain ⟨seen,eof,begins,ended,met,scanned⟩ := replayDsh_rows loads turns stream (some cursor) positive
  have part : rowsRead seen eof <+: rowsRead stream true := by
    cases eof with
    | true => rw [ended rfl]
    | false =>
      rw [rowsRead,rowsRead]
      have closed : Lines.lines newline seen <+: Lines.lines newline stream := Lines.lines_begin begins
      simpa using closed.trans (List.prefix_append _ _)
  have quiet : Quiet b (dshSelect loads b (some cursor)) (rowsRead seen eof) 0 :=
    dshSelect_quiet _ _ _ fun line inside => spoken line (part.subset inside)
  have rows : ((selected b (dshSelect loads b (some cursor)) (rowsRead seen eof) 0).filter (fits b)).map Prod.snd <+:
      Cursor.after mark (dshRecords loads b stream) cursor := by
    rw [← dshRecords_after]
    obtain ⟨late,whole⟩ := part
    rw [← whole,selected_append,List.filter_append,List.map_append]
    exact List.prefix_append _ _
  rw [scanned]
  rcases taken_page (rowsRead seen eof) 0 quiet with ⟨records,first,some',taken⟩ | ⟨retained,taken⟩
  · rw [taken]
    exact ⟨_,rfl,first.trans rows,by simp,fun _ _ => some'⟩
  · rw [taken]
    refine ⟨_,rfl,rows,fun finished => ?_,fun reached stopped => ?_⟩
    · simp only at finished ⊢
      rw [finished,ended finished,dshRecords_after]
    · simp only [met reached] at stopped
      cases stopped

end AgentSideCar.Replay
