import AgentSideCar.Library.Cursor
import AgentSideCar.Replay.Scan

namespace AgentSideCar.Replay
open Tail
variable {ω ρ : Type}

-- The value of a key: an integer (no boolean), or anything else.
inductive Value (ω : Type) where
  | int (n : Int)
  | other (value : ω)
  deriving DecidableEq

abbrev Record (ω : Type) := Dict String (Value ω)

def seqOf (record : Record ω) : Option Int :=
  match record.get "seq" with
  | some (.int n) => some n
  | _ => none

def attachSeq (record : Record ω) (ordinal : Nat) : Record ω := record.set "seq" (.int ordinal)

theorem seqOf_attach (record : Record ω) (ordinal : Nat) : seqOf (attachSeq record ordinal) = some (ordinal : Int) := by
  rw [seqOf,attachSeq,Dict.get_set,if_pos rfl]

section Jsonl
variable (loads : Bytes → Loaded (Record ω))

-- The cursor is the record's 1-based line ordinal, counted over every complete line.
def jsonlSelect (skipThrough ordinal : Nat) (raw : Bytes) : Selected (Record ω) :=
  if ordinal ≤ skipThrough || raw.all isSpace then .skip
  else match loads raw with
    | .raises => .raises
    | .other => .skip
    | .object record => .take (attachSeq record ordinal)

def jsonlChunkBytes : Nat := 256 * 1024

-- `expired` tells at which reads the deadline has passed; the flag whether the scan met the end.
def jsonlLoop (b : Budget) (select : Nat → Bytes → Selected ρ) (chunkBytes : Nat) (expired : Nat → Bool) :
    Nat → Bytes → Nat → Nat → Frame ρ → Progress ρ (Frame ρ × Bool)
  | 0,_,_,_,f => .going (f,false)
  | steps+1,rest,scanned,turn,f =>
    if ¬ scanned < b.maxScanBytes then .going (f,false)
    else if expired turn then .going (f,false)
    else
      let chunk := rest.take (min chunkBytes (b.maxScanBytes - scanned))
      if chunk = [] then .going (f,true)
      else (readChunk b select chunk.length chunk f).bind
        (jsonlLoop b select chunkBytes expired steps (rest.drop chunk.length) (scanned + chunk.length) (turn + 1))

-- None where an exception leaves the call; no file is an exhausted, empty page.
def replayJsonlEvents (b : Budget) (chunkBytes : Nat) (look : Option Bytes) (expired : Nat → Bool)
    (afterSeq : Option Int) : Option (ReplayPage (Record ω)) :=
  if b.maxRecords = 0 ∨ b.maxScanBytes = 0 ∨ b.maxRetainedBytes = 0 ∨ b.maxLineBytes = 0 then some ⟨[],true⟩
  else
    let skipThrough := (afterSeq.getD 0).toNat
    match look with
    | none => some ⟨[],true⟩
    | some content =>
      match jsonlLoop b (jsonlSelect loads skipThrough) chunkBytes expired (content.length + 1) content 0 0 {} with
      | .raised => none
      | .full records => some ⟨records,false⟩
      | .going (f,eof) => some ⟨f.taking.records,eof⟩

end Jsonl

variable {b : Budget} {select : Nat → Bytes → Selected ρ} {chunkBytes : Nat} {expired : Nat → Bool}

theorem jsonlLoop_exact (b : Budget) (select : Nat → Bytes → Selected ρ) (expired : Nat → Bool) (positive : 0 < chunkBytes) (steps : Nat) (seen rest : Bytes) (turn : Nat) (taking : Taking ρ)
    (enough : rest.length < steps) : Scans b select seen rest taking
      ((∀ turn, expired turn = false) ∧ seen.length + rest.length < b.maxScanBytes)
      (jsonlLoop b select chunkBytes expired steps rest seen.length turn (frameOf b seen taking)) := by
  induction steps generalizing seen rest turn taking with
  | zero => omega
  | succ steps ih =>
    rw [jsonlLoop]
    split
    · exact scans_stop taking (by simp) fun reaches => by omega
    split
    · rename_i late
      exact scans_stop taking (by simp) fun reaches => by simp [reaches.1] at late
    generalize cut : rest.take (min chunkBytes (b.maxScanBytes - seen.length)) = chunk
    simp only
    split
    · rename_i empty
      subst empty
      rw [List.take_eq_nil_iff] at cut
      exact scans_stop taking (fun _ => cut.resolve_left (by omega)) fun _ => rfl
    · rename_i some'
      have bound : chunk.length ≤ b.maxScanBytes - seen.length := by
        rw [← cut,List.length_take]; omega
      obtain ⟨later,whole⟩ : chunk <+: rest := cut ▸ List.take_prefix _ _
      have positive := List.length_pos_iff.mpr some'
      subst whole
      rw [List.drop_left]
      apply scans_chunk chunk later taking (by omega)
      intro s
      have next := ih (seen ++ chunk) later (turn + 1) s (by rw [List.length_append] at enough; omega)
      simpa only [List.length_append,Nat.add_assoc] using next

theorem jsonlLoop_reads (b : Budget) (select : Nat → Bytes → Selected ρ) (expired : Nat → Bool)
    (timely : ∀ turn, expired turn = false) (positive : 0 < chunkBytes) (steps : Nat) (seen rest : Bytes) (turn : Nat)
    (taking : Taking ρ) (enough : rest.length < steps) :
    jsonlLoop b select chunkBytes expired steps rest seen.length turn (frameOf b seen taking) =
      (takeLines b select (fresh seen (rest.take (b.maxScanBytes - seen.length))) (Lines.lines newline seen).length
        taking).bind fun s => .going (frameOf b (seen ++ rest.take (b.maxScanBytes - seen.length)) s,
          decide (seen.length + rest.length < b.maxScanBytes)) := by
  induction steps generalizing seen rest turn taking with
  | zero => omega
  | succ steps ih =>
    rw [jsonlLoop]
    split
    · rename_i spent
      rw [show b.maxScanBytes - seen.length = 0 by omega]
      simp only [List.take_zero,List.append_nil,fresh,Lines.feed,takeLines,Progress.bind]
      rw [decide_eq_false (by omega)]
    rw [if_neg (by simp [timely])]
    generalize cut : rest.take (min chunkBytes (b.maxScanBytes - seen.length)) = chunk
    simp only
    split
    · rename_i empty
      subst empty
      rw [List.take_eq_nil_iff] at cut
      cases cut.resolve_left (by omega)
      simp only [List.take_nil,List.append_nil,fresh,Lines.feed,takeLines,Progress.bind]
      rw [decide_eq_true (by simp only [List.length_nil]; omega)]
    · rename_i some'
      have bound : chunk.length ≤ b.maxScanBytes - seen.length := by
        rw [← cut,List.length_take]; omega
      obtain ⟨later,whole⟩ : chunk <+: rest := cut ▸ List.take_prefix _ _
      have grown := List.length_pos_iff.mpr some'
      subst whole
      rw [List.length_append] at enough
      have part : (chunk ++ later).take (b.maxScanBytes - seen.length) =
          chunk ++ later.take (b.maxScanBytes - (seen ++ chunk).length) := by
        rw [List.take_append,List.take_of_length_le bound,List.length_append]
        congr 2
        omega
      have lines : (Lines.lines newline (seen ++ chunk)).length =
          (Lines.lines newline seen).length + (fresh seen chunk).length := by
        rw [Lines.lines_append,List.length_append]; rfl
      rw [List.drop_left,chunk_exact,bind_bind,part,fresh_append,takeLines_append,bind_bind,← lines]
      congr 1
      funext s
      have next := ih (seen ++ chunk) later (turn + 1) s (by omega)
      rw [List.length_append] at next
      simp only [Progress.bind,List.append_assoc,List.length_append,Nat.add_assoc] at next ⊢
      exact next

variable {loads : Bytes → Loaded (Record ω)}

def mark (record : Record ω) : Int := (seqOf record).getD 0

-- The rows of a transcript that a replay can return, with their ordinals attached.
def jsonlRows (loads : Bytes → Loaded (Record ω)) (b : Budget) (lines : List Bytes) (ordinal : Nat) :
    List (Bytes × Record ω) := selected b (jsonlSelect loads 0) lines ordinal

def Spoken (loads : Bytes → Loaded (Record ω)) (b : Budget) (line : Bytes) : Prop :=
  line.length ≤ b.maxLineBytes → line.all isSpace = false → loads line ≠ .raises

theorem mark_attach (record : Record ω) (ordinal : Nat) : mark (attachSeq record ordinal) = ordinal := by
  rw [mark,seqOf_attach]; rfl

theorem jsonlSelect_take (taken : jsonlSelect loads skipThrough ordinal line = .take record) :
    mark record = (ordinal : Int) := by
  unfold jsonlSelect at taken
  split at taken
  · cases taken
  · split at taken <;> cases taken
    exact mark_attach _ _

theorem jsonlSelect_after (skipThrough ordinal : Nat) (line : Bytes) : jsonlSelect loads skipThrough (ordinal + 1) line =
    if ordinal + 1 ≤ skipThrough then .skip else jsonlSelect loads 0 (ordinal + 1) line := by
  unfold jsonlSelect
  by_cases old : ordinal + 1 ≤ skipThrough <;> simp [old]

theorem jsonlSelect_quiet (lines : List Bytes) (skipThrough ordinal : Nat)
    (spoken : ∀ line ∈ lines, Spoken loads b line) : Quiet b (jsonlSelect loads skipThrough) lines ordinal := by
  induction lines generalizing ordinal with
  | nil => trivial
  | cons line rest ih =>
    refine ⟨fun short => ?_,ih (ordinal + 1) fun l inside => spoken l (List.mem_cons_of_mem _ inside)⟩
    rw [jsonlSelect]
    split
    · simp
    · rename_i plain
      simp only [Bool.or_eq_true,decide_eq_true_eq,not_or,Bool.not_eq_true] at plain
      have loud := spoken line List.mem_cons_self short plain.2
      cases loaded : loads line with
      | raises => exact absurd loaded loud
      | other => simp
      | object record => simp

theorem jsonlRows_later (lines : List Bytes) (ordinal : Nat) :
    ∀ row ∈ jsonlRows loads b lines ordinal, (ordinal : Int) < mark row.2 := by
  induction lines generalizing ordinal with
  | nil => intro row inside; cases inside
  | cons line rest ih =>
    intro row inside
    have moved : ∀ row ∈ jsonlRows loads b rest (ordinal + 1), (ordinal : Int) < mark row.2 := by
      intro row inside
      have := ih (ordinal + 1) row inside
      omega
    rw [jsonlRows,selected] at inside
    split at inside
    · exact moved row inside
    · split at inside
      · rename_i taken
        rcases List.mem_cons.mp inside with same | inside
        · subst same
          simp only [jsonlSelect_take taken]
          omega
        · exact moved row inside
      · exact moved row inside

theorem jsonlRows_sorted (lines : List Bytes) (ordinal : Nat) :
    (jsonlRows loads b lines ordinal).Pairwise fun x y => mark x.2 < mark y.2 := by
  induction lines generalizing ordinal with
  | nil => exact .nil
  | cons line rest ih =>
    rw [jsonlRows,selected]
    split
    · exact ih (ordinal + 1)
    · split
      · rename_i taken
        refine List.pairwise_cons.mpr ⟨fun row inside => ?_,ih (ordinal + 1)⟩
        rw [jsonlSelect_take taken]
        exact jsonlRows_later rest (ordinal + 1) row inside
      · exact ih (ordinal + 1)

theorem jsonlRows_after (lines : List Bytes) (skipThrough ordinal : Nat) :
    selected b (jsonlSelect loads skipThrough) lines ordinal =
      (jsonlRows loads b lines ordinal).filter fun row => (skipThrough : Int) < mark row.2 := by
  induction lines generalizing ordinal with
  | nil => rfl
  | cons line rest ih =>
    have later := ih (ordinal + 1)
    rw [jsonlRows] at later
    rw [jsonlRows,selected,selected]
    split
    · exact later
    · rw [jsonlSelect_after]
      cases chosen : jsonlSelect loads 0 (ordinal + 1) line with
      | skip => simpa using later
      | raises => by_cases old : ordinal + 1 ≤ skipThrough <;> simpa [old] using later
      | take record =>
        have placed := jsonlSelect_take chosen
        by_cases old : ordinal + 1 ≤ skipThrough
        · rw [if_pos old,List.filter_cons_of_neg (by simp only [placed]; simp; omega)]
          exact later
        · rw [if_neg old,List.filter_cons_of_pos (by simp only [placed]; simp; omega)]
          simp only [later]

-- The records a transcript retains for replay, each with its line ordinal.
def jsonlRecords (loads : Bytes → Loaded (Record ω)) (b : Budget) (content : Bytes) : List (Record ω) :=
  ((jsonlRows loads b (Lines.lines newline content) 0).filter (fits b)).map Prod.snd

theorem jsonlRecords_sorted (loads : Bytes → Loaded (Record ω)) (b : Budget) (content : Bytes) :
    (jsonlRecords loads b content).Pairwise fun x y => mark x < mark y := by
  rw [jsonlRecords,List.pairwise_map]
  exact (jsonlRows_sorted _ _).filter _

theorem jsonlRecords_begin (begins : seen <+: content) :
    jsonlRecords loads b seen <+: jsonlRecords loads b content := by
  obtain ⟨later,whole⟩ : Lines.lines newline seen <+: Lines.lines newline content := Lines.lines_begin begins
  rw [jsonlRecords,jsonlRecords,← whole,jsonlRows,jsonlRows,selected_append,List.filter_append,List.map_append]
  exact List.prefix_append _ _

theorem jsonlRecords_after (content : Bytes) (cursor : Int) :
    ((selected b (jsonlSelect loads cursor.toNat) (Lines.lines newline content) 0).filter (fits b)).map Prod.snd =
      Cursor.after mark (jsonlRecords loads b content) cursor := by
  have same : ((selected b (jsonlSelect loads cursor.toNat) (Lines.lines newline content) 0).filter (fits b)) =
      ((jsonlRows loads b (Lines.lines newline content) 0).filter (fits b)).filter fun row => cursor < mark row.2 := by
    rw [jsonlRows_after,List.filter_comm]
    apply List.filter_congr
    intro row inside
    have later := jsonlRows_later _ _ row (List.mem_of_mem_filter inside)
    simp only [decide_eq_decide]
    omega
  rw [same,Cursor.after,jsonlRecords,List.filter_map]
  rfl

-- What a page of a transcript holds, whatever ended its scan.
structure Serves (records : List (Record ω)) (cursor : Int) (reached : Prop) (page : ReplayPage (Record ω)) : Prop where
  begins : page.records <+: Cursor.after mark records cursor
  ended : page.exhausted = true → page.records = Cursor.after mark records cursor
  filled : reached → page.exhausted = false → page.records ≠ []

theorem replayJsonl_rows (loads : Bytes → Loaded (Record ω)) (expired : Nat → Bool) (content : Bytes) (cursor : Int)
    (positive : 0 < b.maxRecords ∧ 0 < b.maxScanBytes ∧ 0 < b.maxRetainedBytes ∧ 0 < b.maxLineBytes)
    (chunked : 0 < chunkBytes) :
    ∃ seen eof, seen <+: content ∧ seen.length ≤ b.maxScanBytes ∧ (eof = true → seen = content) ∧
      ((∀ turn, expired turn = false) ∧ content.length < b.maxScanBytes → eof = true) ∧
      replayJsonlEvents loads b chunkBytes (some content) expired (some cursor) =
        match takeLines b (jsonlSelect loads cursor.toNat) (Lines.lines newline seen) 0 {} with
        | .raised => none
        | .full records => some ⟨records,false⟩
        | .going taking => some ⟨taking.records,eof⟩ := by
  have scans := jsonlLoop_exact b (jsonlSelect loads cursor.toNat) expired chunked
    (content.length + 1) [] content 0 {} (by omega)
  rw [frameOf_nil,List.length_nil] at scans
  obtain ⟨seen,eof,begins,ended,within,met,scanned⟩ := scans
  refine ⟨seen,eof,begins,?_,ended,fun reaches => met ⟨reaches.1,by simpa using reaches.2⟩,?_⟩
  · by_cases empty : seen = []
    · simp [empty]
    · simpa using within empty
  · rw [replayJsonlEvents,if_neg (by omega)]
    simp only [Option.getD_some,scanned,fresh_nil,List.nil_append]
    rw [show (Lines.lines newline ([] : Bytes)).length = 0 from rfl]
    cases takeLines b (jsonlSelect loads cursor.toNat) (Lines.lines newline seen) 0 {} <;> rfl

theorem replayJsonl_reads (loads : Bytes → Loaded (Record ω)) (expired : Nat → Bool)
    (timely : ∀ turn, expired turn = false) (content : Bytes) (cursor : Int)
    (positive : 0 < b.maxRecords ∧ 0 < b.maxScanBytes ∧ 0 < b.maxRetainedBytes ∧ 0 < b.maxLineBytes)
    (chunked : 0 < chunkBytes) :
    replayJsonlEvents loads b chunkBytes (some content) expired (some cursor) =
      match takeLines b (jsonlSelect loads cursor.toNat) (Lines.lines newline (content.take b.maxScanBytes)) 0 {} with
      | .raised => none
      | .full records => some ⟨records,false⟩
      | .going taking => some ⟨taking.records,decide (content.length < b.maxScanBytes)⟩ := by
  have read := jsonlLoop_reads b (jsonlSelect loads cursor.toNat) expired timely chunked
    (content.length + 1) [] content 0 {} (by omega)
  rw [frameOf_nil,List.length_nil] at read
  rw [replayJsonlEvents,if_neg (by omega)]
  simp only [Option.getD_some,read,fresh_nil,List.nil_append,Nat.sub_zero,Nat.zero_add]
  rw [show (Lines.lines newline ([] : Bytes)).length = 0 from rfl]
  cases takeLines b (jsonlSelect loads cursor.toNat) (Lines.lines newline (content.take b.maxScanBytes)) 0 {} <;> rfl

theorem replayJsonl_serves (expired : Nat → Bool) (positive : 0 < b.maxRecords ∧ 0 < b.maxScanBytes ∧ 0 < b.maxRetainedBytes ∧ 0 < b.maxLineBytes)
    (chunked : 0 < chunkBytes) (content : Bytes) (spoken : ∀ line ∈ Lines.lines newline content, Spoken loads b line)
    (cursor : Int) : ∃ page, replayJsonlEvents loads b chunkBytes (some content) expired (some cursor) = some page ∧
      Serves (jsonlRecords loads b content) cursor
        ((∀ turn, expired turn = false) ∧ content.length < b.maxScanBytes) page := by
  obtain ⟨seen,eof,begins,_,ended,met,scanned⟩ := replayJsonl_rows loads expired content cursor positive chunked
  have quiet : Quiet b (jsonlSelect loads cursor.toNat) (Lines.lines newline seen) 0 :=
    jsonlSelect_quiet _ _ _ fun line inside => spoken line ((Lines.lines_begin begins).subset inside)
  have part : Cursor.after mark (jsonlRecords loads b seen) cursor <+:
      Cursor.after mark (jsonlRecords loads b content) cursor := (jsonlRecords_begin begins).filter _
  rw [scanned]
  rcases taken_page (Lines.lines newline seen) 0 quiet with ⟨records,first,some',taken⟩ | ⟨retained,taken⟩
  · rw [jsonlRecords_after] at first
    rw [taken]
    exact ⟨_,rfl,first.trans part,by simp,fun _ _ => some'⟩
  · rw [taken,jsonlRecords_after]
    refine ⟨_,rfl,part,fun finished => ?_,fun reached stopped => ?_⟩
    · simp only at finished ⊢
      rw [ended finished]
    · simp only [met reached] at stopped
      cases stopped

end AgentSideCar.Replay
