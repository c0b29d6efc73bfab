import AgentSideCar.Library.Dict
import AgentSideCar.Tail.Follower

namespace AgentSideCar.Replay
open Tail
variable {ρ σ τ : Type}

structure Budget where
  maxRecords : Nat
  maxScanBytes : Nat
  maxRetainedBytes : Nat
  maxLineBytes : Nat

structure ReplayPage (ρ : Type) where
  records : List ρ
  exhausted : Bool
  deriving DecidableEq

-- How far a scan has come: an exception left it, its page is full, or it goes on.
inductive Progress (ρ σ : Type) where
  | raised
  | full (records : List ρ)
  | going (state : σ)
  deriving DecidableEq

def Progress.bind : Progress ρ σ → (σ → Progress ρ τ) → Progress ρ τ
  | .raised,_ => .raised
  | .full records,_ => .full records
  | .going state,step => step state

structure Taking (ρ : Type) where
  records : List ρ := []
  retained : Nat := 0
  deriving DecidableEq

structure Frame (ρ : Type) where
  taking : Taking ρ := {}
  pending : Bytes := []
  droppingLine : Bool := false
  ordinal : Nat := 0

-- What a line is to a replay, before its page's budget is asked.
inductive Selected (ρ : Type) where
  | skip
  | raises
  | take (record : ρ)
  deriving DecidableEq

-- An already useful page ends before a record that does not fit; an empty one skips it.
def takeRecord (b : Budget) (raw : Bytes) (record : ρ) (s : Taking ρ) : Progress ρ (Taking ρ) :=
  if b.maxRetainedBytes - s.retained < raw.length then if s.records = [] then .going s else .full s.records
  else
    let s : Taking ρ := ⟨s.records ++ [record],s.retained + raw.length⟩
    if b.maxRecords ≤ s.records.length ∨ b.maxRetainedBytes ≤ s.retained then .full s.records else .going s

section Select
variable (b : Budget) (select : Nat → Bytes → Selected ρ)

def consume (ordinal : Nat) (raw : Bytes) (s : Taking ρ) : Progress ρ (Taking ρ) :=
  match select ordinal raw with
  | .skip => .going s
  | .raises => .raised
  | .take record => takeRecord b raw record s

def readChunk : Nat → Bytes → Frame ρ → Progress ρ (Frame ρ)
  | 0,_,f => .going f
  | _+1,[],f => .going f
  | steps+1,remaining,f =>
    match Lines.nextLine newline remaining with
    | none =>
      if f.droppingLine then .going f
      else if f.pending.length + remaining.length ≤ b.maxLineBytes then
        .going {f with pending := f.pending ++ remaining}
      else .going {f with pending := [],droppingLine := true}
    | some (segment,rest) =>
      if f.droppingLine then
        readChunk steps rest {f with ordinal := f.ordinal + 1,droppingLine := false,pending := []}
      else if b.maxLineBytes < f.pending.length + segment.length then
        readChunk steps rest {f with ordinal := f.ordinal + 1,pending := []}
      else (consume b select (f.ordinal + 1) (f.pending ++ segment) f.taking).bind fun taking =>
        readChunk steps rest {f with ordinal := f.ordinal + 1,pending := [],taking := taking}

-- The same reading, line by line.
def takeLines : List Bytes → Nat → Taking ρ → Progress ρ (Taking ρ)
  | [],_,s => .going s
  | line :: rest,ordinal,s =>
    if b.maxLineBytes < line.length then takeLines rest (ordinal + 1) s
    else (consume b select (ordinal + 1) line s).bind (takeLines rest (ordinal + 1))

-- The rows a replay selects among some lines.
def selected : List Bytes → Nat → List (Bytes × ρ)
  | [],_ => []
  | line :: rest,ordinal =>
    if b.maxLineBytes < line.length then selected rest (ordinal + 1)
    else match select (ordinal + 1) line with
      | .take record => (line,record) :: selected rest (ordinal + 1)
      | _ => selected rest (ordinal + 1)

def Quiet : List Bytes → Nat → Prop
  | [],_ => True
  | line :: rest,ordinal =>
    (line.length ≤ b.maxLineBytes → select (ordinal + 1) line ≠ .raises) ∧ Quiet rest (ordinal + 1)

end Select

def fits (b : Budget) (row : Bytes × ρ) : Bool := row.1.length ≤ b.maxRetainedBytes

-- The bounded form in which a scan keeps an open row.
def heldRow (b : Budget) (row : Bytes) : Bytes × Bool := if row.length ≤ b.maxLineBytes then (row,false) else ([],true)

variable {b : Budget} {select : Nat → Bytes → Selected ρ}

theorem heldRow_short (short : row.length ≤ b.maxLineBytes) : heldRow b row = (row,false) := if_pos short
theorem heldRow_long (long : b.maxLineBytes < row.length) : heldRow b row = ([],true) := if_neg (by omega)
theorem heldRow_nil (b : Budget) : heldRow b [] = ([],false) := heldRow_short (Nat.zero_le _)

theorem bind_bind (p : Progress ρ σ) (first : σ → Progress ρ τ) (second : τ → Progress ρ υ) :
    (p.bind first).bind second = p.bind fun s => (first s).bind second := by
  cases p <;> rfl

theorem takeLines_single (line : Bytes) (ordinal : Nat) (s : Taking ρ) : takeLines b select [line] ordinal s =
    if b.maxLineBytes < line.length then .going s else consume b select (ordinal + 1) line s := by
  rw [takeLines]
  split
  · rfl
  · cases consume b select (ordinal + 1) line s <;> rfl

theorem takeLines_append (early late : List Bytes) (ordinal : Nat) (s : Taking ρ) :
    takeLines b select (early ++ late) ordinal s =
      (takeLines b select early ordinal s).bind (takeLines b select late (ordinal + early.length)) := by
  induction early generalizing ordinal s with
  | nil => rfl
  | cons line rest ih =>
    have moved : ordinal + 1 + rest.length = ordinal + (line :: rest).length := by simp only [List.length_cons]; omega
    rw [List.cons_append,takeLines,takeLines]
    split
    · rw [ih,moved]
    · rw [bind_bind]
      congr 1
      funext taking
      rw [ih,moved]

theorem selected_append (early late : List Bytes) (ordinal : Nat) : selected b select (early ++ late) ordinal =
    selected b select early ordinal ++ selected b select late (ordinal + early.length) := by
  induction early generalizing ordinal with
  | nil => rfl
  | cons line rest ih =>
    have moved : ordinal + 1 + rest.length = ordinal + (line :: rest).length := by
      simp only [List.length_cons]; omega
    rw [List.cons_append,selected,selected]
    split
    · rw [ih,moved]
    · split <;> rw [ih,moved]
      rfl

theorem readChunk_exact (steps : Nat) (chunk row : Bytes) (f : Frame ρ) (enough : chunk.length ≤ steps)
    (framed : (f.pending,f.droppingLine) = heldRow b row) : readChunk b select steps chunk f =
      (takeLines b select (Lines.feed newline row chunk).1 f.ordinal f.taking).bind fun taking => .going {
        taking := taking
        pending := (heldRow b (Lines.feed newline row chunk).2).1
        droppingLine := (heldRow b (Lines.feed newline row chunk).2).2
        ordinal := f.ordinal + (Lines.feed newline row chunk).1.length} := by
  induction steps generalizing chunk row f with
  | zero =>
    cases List.eq_nil_of_length_eq_zero (Nat.le_zero.mp enough)
    simp [readChunk,Lines.feed,takeLines,Progress.bind,← framed]
  | succ steps ih =>
    cases chunk with
    | nil => simp [readChunk,Lines.feed,takeLines,Progress.bind,← framed]
    | cons x later =>
      rw [readChunk]
      · cases next : Lines.nextLine newline (x :: later) with
        | none =>
          rw [Lines.feed_open row _ (Lines.nextLine_none next)]
          simp only [takeLines,Progress.bind,List.length_nil,Nat.add_zero]
          by_cases short : row.length ≤ b.maxLineBytes
          · rw [heldRow_short short] at framed
            obtain ⟨rfl,drops⟩ := Prod.mk.inj framed
            rw [drops,if_neg (by simp)]
            split
            · rename_i fits
              rw [heldRow_short (by simpa using fits)]
            · rename_i long
              rw [heldRow_long (by simp only [List.length_append]; omega)]
          · rw [heldRow_long (by omega)] at framed
            obtain ⟨empty,drops⟩ := Prod.mk.inj framed
            rw [if_pos drops,heldRow_long (by simp only [List.length_append]; omega)]
            simp [← empty,← drops]
        | some found =>
          obtain ⟨segment,rest⟩ := found
          obtain ⟨clean,whole⟩ := Lines.nextLine_some next
          have shorter : rest.length ≤ steps := by
            have := congrArg List.length whole
            simp only [List.length_cons,List.length_append] at this enough
            omega
          have count : ∀ lines : List Bytes, f.ordinal + 1 + lines.length =
              f.ordinal + ((row ++ segment) :: lines).length := by
            intro lines
            simp only [List.length_cons]
            omega
          rw [whole,Lines.feed_line row segment rest clean]
          simp only [takeLines]
          by_cases short : row.length ≤ b.maxLineBytes
          · rw [heldRow_short short] at framed
            obtain ⟨rfl,drops⟩ := Prod.mk.inj framed
            simp only [drops,Bool.false_eq_true,if_false,List.length_append]
            split
            · rw [ih rest [] _ shorter (by simp [heldRow_nil]),count]
            · rw [bind_bind]
              congr 1
              funext taking
              rw [ih rest [] _ shorter (by simp [heldRow_nil]),count]
          · rw [heldRow_long (by omega)] at framed
            simp only [(Prod.mk.inj framed).2,if_true]
            rw [if_pos (by simp only [List.length_append]; omega),ih rest [] _ shorter (by simp [heldRow_nil]),count]
      · simp

-- The frame a scan is in when it has read `seen`.
def frameOf (b : Budget) (seen : Bytes) (taking : Taking ρ) : Frame ρ where
  taking := taking
  pending := (heldRow b (Lines.openRow newline seen)).1
  droppingLine := (heldRow b (Lines.openRow newline seen)).2
  ordinal := (Lines.lines newline seen).length

theorem frameOf_nil (b : Budget) : frameOf b [] ({} : Taking ρ) = {} := by
  rw [frameOf,Lines.openRow,Lines.lines,Lines.feed,heldRow_nil]
  rfl

-- The lines a chunk completes.
def fresh (seen chunk : Bytes) : List Bytes := (Lines.feed newline (Lines.openRow newline seen) chunk).1

theorem fresh_append (seen early late : Bytes) :
    fresh seen (early ++ late) = fresh seen early ++ fresh (seen ++ early) late := by
  rw [fresh,fresh,fresh,Lines.feed_append,Lines.openRow_append]

theorem fresh_nil (content : Bytes) : fresh [] content = Lines.lines newline content := rfl

theorem chunk_exact (seen chunk : Bytes) (taking : Taking ρ) :
    readChunk b select chunk.length chunk (frameOf b seen taking) =
      (takeLines b select (fresh seen chunk) (Lines.lines newline seen).length taking).bind fun s =>
        .going (frameOf b (seen ++ chunk) s) := by
  rw [readChunk_exact chunk.length chunk (Lines.openRow newline seen) _ le_rfl rfl]
  simp only [frameOf,fresh,Lines.openRow_append,Lines.lines_append,List.length_append]

-- What a scan of `rest` after `seen` makes of the lines it completes: however the bytes
-- are cut into chunks it takes those of a first part, and all where it meets the end.
def Scans (b : Budget) (select : Nat → Bytes → Selected ρ) (seen rest : Bytes) (taking : Taking ρ) (reaches : Prop)
    (outcome : Progress ρ (Frame ρ × Bool)) : Prop :=
  ∃ more eof, more <+: rest ∧ (eof = true → more = rest) ∧
    (more ≠ [] → seen.length + more.length ≤ b.maxScanBytes) ∧ (reaches → eof = true) ∧
    outcome = (takeLines b select (fresh seen more) (Lines.lines newline seen).length taking).bind fun s =>
      .going (frameOf b (seen ++ more) s,eof)

theorem scans_stop (taking : Taking ρ) (ended : eof = true → rest = []) (met : reaches → eof = true) :
    Scans b select seen rest taking reaches (.going (frameOf b seen taking,eof)) := by
  refine ⟨[],eof,List.nil_prefix,fun finished => (ended finished).symm,by simp,met,?_⟩
  simp [fresh,Lines.feed,takeLines,Progress.bind]

theorem scans_chunk {next : Frame ρ → Progress ρ (Frame ρ × Bool)} (chunk later : Bytes) (taking : Taking ρ)
    (bound : seen.length + chunk.length ≤ b.maxScanBytes)
    (scans : ∀ s, Scans b select (seen ++ chunk) later s reaches (next (frameOf b (seen ++ chunk) s))) :
    Scans b select seen (chunk ++ later) taking reaches
      ((readChunk b select chunk.length chunk (frameOf b seen taking)).bind next) := by
  have lines : (Lines.lines newline (seen ++ chunk)).length =
      (Lines.lines newline seen).length + (fresh seen chunk).length := by
    rw [Lines.lines_append,List.length_append]; rfl
  have grows : ∀ s, ∃ more eof, more <+: later ∧ (eof = true → more = later) ∧
      seen.length + (chunk ++ more).length ≤ b.maxScanBytes ∧ (reaches → eof = true) ∧
      next (frameOf b (seen ++ chunk) s) =
        (takeLines b select (fresh (seen ++ chunk) more) (Lines.lines newline (seen ++ chunk)).length s).bind fun s =>
          .going (frameOf b (seen ++ (chunk ++ more)) s,eof) := by
    intro s
    obtain ⟨more,eof,part,ended,within,met,same⟩ := scans s
    refine ⟨more,eof,part,ended,?_,met,by rw [same,List.append_assoc]⟩
    rw [List.length_append]
    by_cases empty : more = []
    · subst empty; exact bound
    · have := within empty
      rw [List.length_append] at this
      omega
  rw [chunk_exact]
  cases taken : takeLines b select (fresh seen chunk) (Lines.lines newline seen).length taking with
  | raised =>
    obtain ⟨more,eof,part,ended,within,met,_⟩ := grows taking
    refine ⟨chunk ++ more,eof,(List.prefix_append_right_inj _).mpr part,fun finished => by rw [ended finished],
      fun _ => within,met,?_⟩
    rw [fresh_append,takeLines_append,taken]
    rfl
  | full records =>
    obtain ⟨more,eof,part,ended,within,met,_⟩ := grows taking
    refine ⟨chunk ++ more,eof,(List.prefix_append_right_inj _).mpr part,fun finished => by rw [ended finished],
      fun _ => within,met,?_⟩
    rw [fresh_append,takeLines_append,taken]
    rfl
  | going s =>
    obtain ⟨more,eof,part,ended,within,met,same⟩ := grows s
    refine ⟨chunk ++ more,eof,(List.prefix_append_right_inj _).mpr part,fun finished => by rw [ended finished],
      fun _ => within,met,?_⟩
    rw [fresh_append,takeLines_append,taken,← lines]
    exact same

theorem takeLines_raises (lines : List Bytes) (ordinal : Nat) (s : Taking ρ) (loud : ¬ Quiet b select lines ordinal)
    (after : Taking ρ) : takeLines b select lines ordinal s ≠ .going after := by
  induction lines generalizing ordinal s with
  | nil => exact absurd trivial loud
  | cons line rest ih =>
    rw [takeLines]
    split
    · rename_i long
      exact ih _ _ fun quiet => loud ⟨fun short => by omega,quiet⟩
    · rename_i short
      rw [consume]
      cases chosen : select (ordinal + 1) line with
      | raises => simp [Progress.bind]
      | skip => exact ih _ _ fun quiet => loud ⟨fun _ => by simp [chosen],quiet⟩
      | take record =>
        have quiet := fun s => ih (ordinal + 1) s fun quiet => loud ⟨fun _ => by simp [chosen],quiet⟩
        cases admitted : takeRecord b line record s with
        | raised => simp [admitted,Progress.bind]
        | full records => simp [admitted,Progress.bind]
        | going next => simpa [admitted,Progress.bind] using quiet next

def takeRows (b : Budget) : List (Bytes × ρ) → Taking ρ → Progress ρ (Taking ρ)
  | [],s => .going s
  | row :: rest,s => (takeRecord b row.1 row.2 s).bind (takeRows b rest)

theorem takeLines_selected (lines : List Bytes) (ordinal : Nat) (s : Taking ρ) (quiet : Quiet b select lines ordinal) :
    takeLines b select lines ordinal s = takeRows b (selected b select lines ordinal) s := by
  induction lines generalizing ordinal s with
  | nil => rfl
  | cons line rest ih =>
    rw [takeLines,selected]
    split
    · exact ih _ _ quiet.2
    · rename_i short
      have spoken := quiet.1 (by omega)
      rw [consume]
      cases chosen : select (ordinal + 1) line with
      | raises => exact absurd chosen spoken
      | skip => exact ih _ _ quiet.2
      | take record =>
        rw [takeRows]
        congr 1
        funext next
        exact ih _ _ quiet.2

theorem takeRecord_fits (row : Bytes × ρ) (s : Taking ρ) (fresh : s.records = [] → s.retained = 0) :
    (fits b row = false ∧ (s.records = [] ∧ takeRecord b row.1 row.2 s = .going s ∨
        s.records ≠ [] ∧ takeRecord b row.1 row.2 s = .full s.records)) ∨
      fits b row = true ∧ (takeRecord b row.1 row.2 s = .going ⟨s.records ++ [row.2],s.retained + row.1.length⟩ ∨
        takeRecord b row.1 row.2 s = .full (s.records ++ [row.2]) ∨
        s.records ≠ [] ∧ takeRecord b row.1 row.2 s = .full s.records) := by
  unfold takeRecord fits
  by_cases empty : s.records = []
  · rw [fresh empty,Nat.sub_zero]
    by_cases short : row.1.length ≤ b.maxRetainedBytes
    · rw [if_neg (by omega)]
      refine .inr ⟨by simpa using short,?_⟩
      simp only [empty,List.nil_append,Nat.zero_add]
      split
      · exact .inr (.inl rfl)
      · exact .inl rfl
    · rw [if_pos (by omega),if_pos empty]
      exact .inl ⟨by simpa using short,.inl ⟨empty,rfl⟩⟩
  · rw [if_neg empty]
    by_cases short : row.1.length ≤ b.maxRetainedBytes
    · refine .inr ⟨by simpa using short,?_⟩
      split
      · exact .inr (.inr ⟨empty,rfl⟩)
      · simp only
        split
        · exact .inr (.inl rfl)
        · exact .inl rfl
    · rw [if_pos (by omega)]
      exact .inl ⟨by simpa using short,.inr ⟨empty,rfl⟩⟩

-- A page is a first part of the rows that fit its bytes, not an empty one when it
-- fills up, and all of them when it does not.
theorem takeRows_exact (rows : List (Bytes × ρ)) (s : Taking ρ) (fresh : s.records = [] → s.retained = 0) :
    (∃ part, part <+: (rows.filter (fits b)).map Prod.snd ∧ takeRows b rows s = .full (s.records ++ part) ∧
        s.records ++ part ≠ []) ∨
      ∃ retained, takeRows b rows s = .going ⟨s.records ++ (rows.filter (fits b)).map Prod.snd,retained⟩ := by
  induction rows generalizing s with
  | nil => exact .inr ⟨s.retained,by simp [takeRows]⟩
  | cons row rest ih =>
    rw [takeRows]
    rcases takeRecord_fits row s fresh with ⟨long,⟨_,admitted⟩ | ⟨some',admitted⟩⟩ | ⟨short,admitted | admitted | ⟨some',admitted⟩⟩
    · rw [admitted,List.filter_cons_of_neg (by simp [long])]
      exact ih s fresh
    · rw [admitted]
      exact .inl ⟨[],List.nil_prefix,by simp [Progress.bind],by simpa using some'⟩
    · rw [admitted,List.filter_cons_of_pos short]
      rcases ih ⟨s.records ++ [row.2],s.retained + row.1.length⟩ (by simp) with ⟨part,begins,taken,some'⟩ | ⟨retained,taken⟩
      · refine .inl ⟨row.2 :: part,?_,by simpa [Progress.bind] using taken,by simp⟩
        rw [List.map_cons]
        exact (List.prefix_cons_inj _).mpr begins
      · exact .inr ⟨retained,by simpa [Progress.bind] using taken⟩
    · rw [admitted,List.filter_cons_of_pos short]
      exact .inl ⟨[row.2],by simp,rfl,by simp⟩
    · rw [admitted]
      exact .inl ⟨[],List.nil_prefix,by simp [Progress.bind],by simpa using some'⟩

theorem taken_page (lines : List Bytes) (ordinal : Nat) (quiet : Quiet b select lines ordinal) :
    (∃ part, part <+: ((selected b select lines ordinal).filter (fits b)).map Prod.snd ∧ part ≠ [] ∧
        takeLines b select lines ordinal {} = .full part) ∨
      ∃ retained, takeLines b select lines ordinal {} =
        .going ⟨((selected b select lines ordinal).filter (fits b)).map Prod.snd,retained⟩ := by
  rw [takeLines_selected lines ordinal {} quiet]
  rcases takeRows_exact (selected b select lines ordinal) {} (fun _ => rfl) with ⟨part,begins,taken,some'⟩ | taken
  · exact .inl ⟨part,begins,some',taken⟩
  · exact .inr taken

end AgentSideCar.Replay
