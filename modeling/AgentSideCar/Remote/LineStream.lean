import AgentSideCar.Library.Lines
import AgentSideCar.Library.Runs

namespace AgentSideCar.Remote.LineStream
open Lines Runs

def newline : UInt8 := 10

-- EOF when the status is zero, NONZERO_EXIT otherwise.
inductive EndReason where
  | lineOverflow
  | ended (returncode : Int)
  deriving DecidableEq

-- The instance's fields, the lines that __next__ returned, and what the child has written or
-- will write and nobody has read.
structure BoundedLineStream where
  stdoutBuffer : List UInt8 := []
  stdoutEof : Bool := false
  stdoutBytesRead : Nat := 0
  linesYielded : Nat := 0
  closed : Option EndReason := none
  yielded : List (List UInt8) := []
  unread : List UInt8

structure Options where
  lineLimit : Nat
  chunkSize : Nat := 65536

-- One select and one poll: whether stdout was readable and how much it had to give, the status
-- if the child has exited, and whether its other pipes are at their end and no descendant lives.
-- A read that fails counts as one at the end of the file.
inductive Read where
  | wouldBlock
  | chunk (size : Nat)
structure Pump where
  stdout : Option Read := none
  returncode : Option Int := none
  drained : Bool := false

def takeStdoutLine (s : BoundedLineStream) : Option BoundedLineStream :=
  match nextLine newline s.stdoutBuffer with
  | some (line,rest) =>
    some {s with stdoutBuffer := rest,linesYielded := s.linesYielded + 1,yielded := s.yielded ++ [line]}
  | none =>
    if s.stdoutEof = true ∧ s.stdoutBuffer ≠ [] then
      some {s with stdoutBuffer := [],linesYielded := s.linesYielded + 1,yielded := s.yielded ++ [s.stdoutBuffer]}
    else none

def requested (o : Options) (s : BoundedLineStream) : Nat :=
  max 1 (min o.chunkSize (o.lineLimit - s.stdoutBuffer.length + 1))

def readStdout (o : Options) (size : Nat) (s : BoundedLineStream) : BoundedLineStream :=
  let chunk := s.unread.take (min (max 1 size) (requested o s))
  if chunk = [] then {s with stdoutEof := true}
  else
    let s := {s with
      stdoutBytesRead := s.stdoutBytesRead + chunk.length
      stdoutBuffer := s.stdoutBuffer ++ chunk
      unread := s.unread.drop chunk.length}
    if newline ∉ s.stdoutBuffer ∧ o.lineLimit < s.stdoutBuffer.length then {s with closed := some .lineOverflow} else s

-- Once at its end stdout is no longer selected.
def drainStdout (o : Options) (stdout : Option Read) (s : BoundedLineStream) : BoundedLineStream :=
  match stdout with
  | some (.chunk size) => if s.stdoutEof then s else readStdout o size s
  | _ => s

def pumpOnce (o : Options) (p : Pump) (s : BoundedLineStream) : BoundedLineStream :=
  let s := drainStdout o p.stdout s
  if s.closed.isSome then s
  else match p.returncode with
    | none => s
    | some returncode =>
      if !s.stdoutEof || !p.drained then s
      else if s.stdoutBuffer ≠ [] then s
      else {s with closed := some (.ended returncode)}

-- The loop of __next__: a line is returned when there is one, else the pipes are pumped.
inductive Event where
  | yields
  | pumps (p : Pump)

def advance (o : Options) (s : BoundedLineStream) : Event → Option BoundedLineStream
  | .yields => if s.closed.isSome then none else takeStdoutLine s
  | .pumps p => if s.closed.isSome || (takeStdoutLine s).isSome then none else some (pumpOnce o p s)

def start (whole : List UInt8) : BoundedLineStream := {unread := whole}

def TooLong (o : Options) (whole : List UInt8) : Prop := ∃ line ∈ allLines newline whole, o.lineLimit < line.length

-- What is left to yield is what is left to read, and the buffer stays within the limit.
structure Reads (o : Options) (whole : List UInt8) (s : BoundedLineStream) : Prop where
  rest : allLines newline whole = s.yielded ++ allLines newline (s.stdoutBuffer ++ s.unread)
  short : ∀ line ∈ s.yielded, line.length ≤ o.lineLimit
  bounded : s.stdoutBuffer.length ≤ o.lineLimit + 1
  within : s.closed = none → newline ∉ s.stdoutBuffer → s.stdoutBuffer.length ≤ o.lineLimit
  eof : s.stdoutEof = true → s.unread = []
  overflow : s.closed = some .lineOverflow → newline ∉ s.stdoutBuffer ∧ o.lineLimit < s.stdoutBuffer.length
  ended : ∀ returncode, s.closed = some (.ended returncode) → s.stdoutBuffer = [] ∧ s.unread = []

variable {o : Options} {whole : List UInt8} {s after : BoundedLineStream}

theorem start_reads (o : Options) (whole : List UInt8) : Reads o whole (start whole) where
  rest := rfl
  short := nofun
  bounded := Nat.zero_le _
  within _ _ := Nat.zero_le _
  eof := nofun
  overflow := nofun
  ended := nofun

theorem take_reads (reads : Reads o whole s) (opened : s.closed = none) (taken : takeStdoutLine s = some after) :
    Reads o whole after := by
  unfold takeStdoutLine at taken
  split at taken
  · rename_i line rest found
    cases Option.some.inj taken
    obtain ⟨clean,cut⟩ := nextLine_some found
    have size := congrArg List.length cut
    rw [List.length_append,List.length_cons] at size
    have bounded := reads.bounded
    refine ⟨?_,?_,by dsimp only; omega,fun _ _ => by dsimp only; omega,reads.eof,?_,?_⟩
    · rw [reads.rest,cut,List.append_assoc,List.cons_append,allLines_line _ clean]
      simp
    · intro l inside
      rcases List.mem_append.mp inside with old | new
      · exact reads.short l old
      · rw [List.mem_singleton.mp new]
        omega
    · exact fun long => absurd long (by simp [opened])
    · exact fun _ ended => absurd ended (by simp [opened])
  · rename_i absent
    have clean := nextLine_none absent
    split at taken
    · rename_i last
      cases Option.some.inj taken
      have none' := reads.eof last.1
      refine ⟨?_,?_,Nat.zero_le _,fun _ _ => Nat.zero_le _,reads.eof,?_,?_⟩
      · rw [reads.rest,none',List.append_nil,allLines_last clean last.2]
        simp
      · intro l inside
        rcases List.mem_append.mp inside with old | new
        · exact reads.short l old
        · rw [List.mem_singleton.mp new]
          exact reads.within opened clean
      · exact fun long => absurd long (by simp [opened])
      · exact fun _ ended => absurd ended (by simp [opened])
    · cases taken

theorem take_none (absent : takeStdoutLine s = none) :
    newline ∉ s.stdoutBuffer ∧ (s.stdoutEof = true → s.stdoutBuffer = []) := by
  unfold takeStdoutLine at absent
  split at absent
  · cases absent
  · rename_i found
    split at absent
    · cases absent
    · rename_i short
      exact ⟨nextLine_none found,fun eof => Classical.byContradiction fun some' => short ⟨eof,some'⟩⟩

theorem read_reads (reads : Reads o whole s) (opened : s.closed = none) (clean : newline ∉ s.stdoutBuffer) :
    Reads o whole (readStdout o size s) := by
  have within := reads.within opened clean
  unfold readStdout
  dsimp only
  generalize chunk' : s.unread.take (min (max 1 size) (requested o s)) = chunk
  have few : chunk.length ≤ o.lineLimit - s.stdoutBuffer.length + 1 := by
    rw [←chunk',List.length_take]
    unfold requested
    omega
  have cut : chunk ++ s.unread.drop chunk.length = s.unread := by
    obtain ⟨rest,same⟩ : chunk <+: s.unread := chunk' ▸ List.take_prefix _ _
    rw [←same,List.drop_left]
  split
  · rename_i none'
    have ended : s.unread = [] := by
      have positive : 0 < min (max 1 size) (requested o s) := by unfold requested; omega
      rw [none'] at chunk'
      exact (List.take_eq_nil_iff.mp chunk').resolve_left (by omega)
    exact ⟨reads.rest,reads.short,reads.bounded,reads.within,fun _ => ended,reads.overflow,reads.ended⟩
  · rename_i some'
    have rest : allLines newline whole =
        s.yielded ++ allLines newline (s.stdoutBuffer ++ chunk ++ s.unread.drop chunk.length) := by
      rw [List.append_assoc,cut]
      exact reads.rest
    have bounded : (s.stdoutBuffer ++ chunk).length ≤ o.lineLimit + 1 := by
      rw [List.length_append]
      omega
    have eof : s.stdoutEof = true → s.unread.drop chunk.length = [] := fun ended => by simp [reads.eof ended]
    split
    · rename_i long
      exact ⟨rest,reads.short,bounded,nofun,eof,fun _ => long,nofun⟩
    · rename_i fits
      refine ⟨rest,reads.short,bounded,fun _ free => ?_,eof,?_,?_⟩
      · exact Nat.le_of_not_lt fun long => fits ⟨free,long⟩
      · exact fun long => absurd long (by simp [opened])
      · exact fun _ ended => absurd ended (by simp [opened])

theorem drain_reads (reads : Reads o whole s) (opened : s.closed = none) (clean : newline ∉ s.stdoutBuffer) :
    Reads o whole (drainStdout o stdout s) := by
  unfold drainStdout
  split
  · split
    · exact reads
    · exact read_reads reads opened clean
  · exact reads

theorem pump_reads (reads : Reads o whole s) (opened : s.closed = none) (absent : takeStdoutLine s = none) :
    Reads o whole (pumpOnce o p s) := by
  have drained : Reads o whole (drainStdout o p.stdout s) := drain_reads reads opened (take_none absent).1
  unfold pumpOnce
  dsimp only
  generalize drainStdout o p.stdout s = t at drained
  split
  · exact drained
  · split
    · exact drained
    · split
      · exact drained
      · rename_i eof
        split
        · exact drained
        · rename_i empty
          have empty : t.stdoutBuffer = [] := Classical.not_not.mp empty
          simp only [Bool.or_eq_true,Bool.not_eq_true',not_or,Bool.not_eq_false] at eof
          exact ⟨drained.rest,drained.short,drained.bounded,fun _ _ => by simp [empty],drained.eof,nofun,
            fun _ _ => ⟨empty,drained.eof eof.1⟩⟩

theorem advance_reads (reads : Reads o whole s) (stepped : advance o s event = some after) : Reads o whole after := by
  cases event with
  | yields =>
    obtain ⟨opened,taken⟩ := Option.ite_none_left_eq_some.mp stepped
    exact take_reads reads (by simpa using opened) taken
  | pumps p =>
    obtain ⟨idle,pumped⟩ := Option.ite_none_left_eq_some.mp stepped
    cases Option.some.inj pumped
    simp only [Bool.or_eq_true,not_or,Bool.not_eq_true,Option.isSome_eq_false_iff,Option.isNone_iff_eq_none] at idle
    exact pump_reads reads idle.1 idle.2

theorem run_reads (path : Run (advance o) Any (start whole) events s) : Reads o whole s :=
  path.invariant (Reads o whole) (start_reads o whole) fun _ _ _ reads _ stepped => advance_reads reads stepped

-- What a stream that has been iterated so far has shown of its child's output.
structure Faithful (o : Options) (whole : List UInt8) (s : BoundedLineStream) : Prop where
  beginning : s.yielded <+: allLines newline whole
  bounded : s.stdoutBuffer.length ≤ o.lineLimit + 1
  overflow : s.closed.isSome = true → (s.closed = some .lineOverflow ↔ TooLong o whole)
  complete : ∀ returncode, s.closed = some (.ended returncode) → s.yielded = allLines newline whole

theorem reads_long (reads : Reads o whole s) (long : s.closed = some .lineOverflow) : TooLong o whole := by
  obtain ⟨clean,size⟩ := reads.overflow long
  have some' : s.stdoutBuffer ≠ [] := List.length_pos_iff.mp (Nat.zero_lt_of_lt size)
  obtain ⟨more,inside⟩ := allLines_begins s.unread clean some'
  refine ⟨s.stdoutBuffer ++ more,reads.rest ▸ List.mem_append_right _ inside,?_⟩
  rw [List.length_append]
  omega

theorem reads_complete (reads : Reads o whole s) (ended : s.closed = some (.ended returncode)) :
    s.yielded = allLines newline whole := by
  obtain ⟨empty,none'⟩ := reads.ended returncode ended
  rw [reads.rest,empty,none',List.append_nil,allLines_nil,List.append_nil]

theorem lines_exact (path : Run (advance o) Any (start whole) events s) : Faithful o whole s := by
  have reads := run_reads path
  refine ⟨reads.rest ▸ List.prefix_append _ _,reads.bounded,fun closed => ⟨reads_long reads,fun ⟨line,inside,long⟩ => ?_⟩,
    fun _ ended => reads_complete reads ended⟩
  obtain ⟨reason,same⟩ := Option.isSome_iff_exists.mp closed
  cases reason with
  | lineOverflow => exact same
  | ended returncode =>
    rw [←reads_complete reads same] at inside
    exact absurd (reads.short line inside) (Nat.not_le.mpr long)

-- Every step that finds something lightens the stream, so no iteration goes on for ever while
-- the child's output and exit keep arriving.
def weight (s : BoundedLineStream) : Nat := 2 * s.unread.length + s.stdoutBuffer.length + if s.stdoutEof then 0 else 1

theorem take_lighter (taken : takeStdoutLine s = some after) : weight after < weight s := by
  unfold takeStdoutLine at taken
  split at taken
  · rename_i line rest found
    cases Option.some.inj taken
    obtain ⟨_,cut⟩ := nextLine_some found
    simp only [weight,cut,List.length_append,List.length_cons]
    omega
  · split at taken
    · rename_i last
      cases Option.some.inj taken
      have positive := List.length_pos_iff.mpr last.2
      simp only [weight,List.length_nil]
      omega
    · cases taken

def lastPump : Pump := ⟨some (.chunk 1),some 0,true⟩

theorem pump_lighter (opened : s.closed = none) (absent : takeStdoutLine s = none) :
    (pumpOnce o lastPump s).closed.isSome = true ∨ weight (pumpOnce o lastPump s) < weight s := by
  obtain ⟨_,empty⟩ := take_none absent
  cases eof : s.stdoutEof with
  | true => exact .inl (by simp [pumpOnce,drainStdout,lastPump,eof,opened,empty eof])
  | false =>
    cases left : s.unread with
    | nil =>
      by_cases none' : s.stdoutBuffer = []
      · exact .inl (by simp [pumpOnce,drainStdout,lastPump,eof,readStdout,left,opened,none'])
      · exact .inr (by simp [pumpOnce,drainStdout,lastPump,eof,readStdout,left,opened,none',weight])
    | cons byte rest =>
      have one : (byte :: rest).take (min (max 1 1) (requested o s)) = [byte] := by
        rw [show min (max 1 1) (requested o s) = 1 by unfold requested; omega]
        rfl
      have grown : drainStdout o lastPump.stdout s = readStdout o 1 s := by simp [drainStdout,lastPump,eof]
      by_cases long : newline ∉ s.stdoutBuffer ++ [byte] ∧ o.lineLimit < (s.stdoutBuffer ++ [byte]).length
      · have closed : (readStdout o 1 s).closed = some .lineOverflow := by
          simp only [readStdout,left,one,if_pos long]
          simp
        exact .inl (by simp [pumpOnce,grown,closed])
      · have held : readStdout o 1 s = {s with
            stdoutBytesRead := s.stdoutBytesRead + 1
            stdoutBuffer := s.stdoutBuffer ++ [byte]
            unread := rest} := by
          simp only [readStdout,left,one,if_neg long]
          simp
        have pumped : weight (pumpOnce o lastPump s) = 2 * rest.length + (s.stdoutBuffer.length + 1) + 1 := by
          simp only [pumpOnce,grown,held,opened]
          simp [lastPump,eof,weight]
        refine .inr ?_
        rw [pumped]
        simp only [weight,left,List.length_cons,eof,Bool.false_eq_true,if_false]
        omega

theorem stream_closes (opened : s.closed = none) : ∃ events after,
    Run (advance o) Any s events after ∧ after.closed.isSome = true := by
  induction measured : weight s using Nat.strongRecOn generalizing s with
  | ind n ih =>
    have continues : ∀ event middle, advance o s event = some middle →
        middle.closed.isSome = true ∨ middle.closed = none ∧ weight middle < weight s →
        ∃ events after, Run (advance o) Any s events after ∧ after.closed.isSome = true := by
      intro event middle stepped ends
      rcases ends with closed | ⟨opened',lighter⟩
      · exact ⟨[event],middle,.single trivial stepped,closed⟩
      · obtain ⟨events,after,path,closed⟩ := ih (weight middle) (measured ▸ lighter) opened' rfl
        exact ⟨event :: events,after,.cons trivial stepped path,closed⟩
    cases taken : takeStdoutLine s with
    | some middle =>
      refine continues .yields middle (by simp [advance,opened,taken]) (.inr ⟨?_,take_lighter taken⟩)
      unfold takeStdoutLine at taken
      split at taken
      · cases Option.some.inj taken; exact opened
      · split at taken
        · cases Option.some.inj taken; exact opened
        · cases taken
    | none =>
      refine continues (.pumps lastPump) (pumpOnce o lastPump s) (by simp [advance,opened,taken]) ?_
      rcases @pump_lighter o s opened taken with closed | lighter
      · exact .inl closed
      · cases closed : (pumpOnce o lastPump s).closed with
        | none => exact .inr ⟨rfl,lighter⟩
        | some reason => exact .inl rfl

def demoBytes : List UInt8 := [104,105,10,10,111]
-- Two bytes a read; the last line has no end, and the exit is seen while it is still in the buffer.
def demoRun : List Event := [.pumps {stdout := some (.chunk 2)},.pumps {stdout := some (.chunk 9)},.yields,.yields,
  .pumps {stdout := some .wouldBlock},.pumps {stdout := some (.chunk 1),returncode := some 3,drained := true},
  .yields,.pumps {returncode := some 3,drained := true}]

theorem demo_lines_exact : ∃ s, Run (advance ⟨4,3⟩) Any (start demoBytes) demoRun s ∧
    s.yielded = [[104,105],[],[111]] ∧ s.closed = some (.ended 3) ∧ Faithful ⟨4,3⟩ demoBytes s := by
  have shown : ((follow (advance ⟨4,3⟩) Any (start demoBytes) demoRun).map fun s => (s.yielded,s.closed)) =
      some ([[104,105],[],[111]],some (.ended 3)) := by decide +kernel
  obtain ⟨s,path,fields⟩ := Option.map_eq_some_iff.mp shown
  obtain ⟨yielded,closed⟩ := Prod.mk.inj fields
  exact ⟨s,follow_exact.mp path,yielded,closed,lines_exact (follow_exact.mp path)⟩

end AgentSideCar.Remote.LineStream
