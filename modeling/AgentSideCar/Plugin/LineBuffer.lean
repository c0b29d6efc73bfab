import AgentSideCar.Library.Lines

namespace AgentSideCar.Bridge
open Lines

def newline : UInt8 := 10

inductive Callback where
  | onLine (line : List UInt8)
  | onOverflow
  deriving DecidableEq

structure LineBuffer where
  pending : List UInt8 := []
  dropping : Bool := false

-- The loop of push: what it calls back, and what it leaves.
def drain (maxBytes : Nat) (s : LineBuffer) : List Callback × LineBuffer :=
  match _found : nextLine newline s.pending with
  | none =>
    if maxBytes < s.pending.length then (if s.dropping then [] else [.onOverflow],⟨[],true⟩) else ([],s)
  | some (line,rest) =>
    let later := drain maxBytes ⟨rest,false⟩
    if s.dropping then later
    else if maxBytes < line.length then (.onOverflow :: later.1,later.2)
    else (.onLine line :: later.1,later.2)
termination_by s.pending.length
decreasing_by
  rw [(nextLine_some _found).2]
  simp only [List.length_append,List.length_cons]
  omega

def push (maxBytes : Nat) (chunk : List UInt8) (s : LineBuffer) : List Callback × LineBuffer :=
  drain maxBytes {s with pending := s.pending ++ chunk}

def pushAll (maxBytes : Nat) : List (List UInt8) → LineBuffer → List Callback × LineBuffer
  | [],s => ([],s)
  | chunk :: rest,s =>
    let (called,after) := push maxBytes chunk s
    let (more,last) := pushAll maxBytes rest after
    (called ++ more,last)

def judge (maxBytes : Nat) (line : List UInt8) : Callback :=
  if line.length ≤ maxBytes then .onLine line else .onOverflow

-- What splitting the whole stream in one go says of it: of each line, and of a last
-- one that nothing ends yet where it is too long already.
def callbacks (maxBytes : Nat) (stream : List UInt8) : List Callback :=
  (lines newline stream).map (judge maxBytes) ++
    if maxBytes < (openRow newline stream).length then [.onOverflow] else []

theorem callbacks_open (clean : newline ∉ row) : callbacks maxBytes row = if maxBytes < row.length then [.onOverflow] else [] := by
  have whole := feed_open [] row clean
  rw [List.nil_append] at whole
  rw [callbacks,lines,openRow,whole]
  rfl

theorem callbacks_line (clean : newline ∉ line) (rest : List UInt8) :
    callbacks maxBytes (line ++ newline :: rest) = judge maxBytes line :: callbacks maxBytes rest := by
  have cut := feed_line [] line rest clean
  rw [List.nil_append] at cut
  rw [callbacks,callbacks,lines,openRow,cut]
  rfl

theorem callbacks_append (stream chunk : List UInt8) : callbacks maxBytes (stream ++ chunk) =
    (lines newline stream).map (judge maxBytes) ++ callbacks maxBytes (openRow newline stream ++ chunk) := by
  have clean : newline ∉ openRow newline stream := (openRow_split stream).1
  have open' := feed_open [] (openRow newline stream) clean
  rw [List.nil_append] at open'
  have lined : lines newline (openRow newline stream ++ chunk) = (feed newline (openRow newline stream) chunk).1 := by
    rw [lines,feed_append,open']
    rfl
  have rowed : openRow newline (openRow newline stream ++ chunk) = (feed newline (openRow newline stream) chunk).2 := by
    rw [openRow,feed_append,open']
  rw [callbacks,callbacks,lines_append,openRow_append,lined,rowed,List.map_append,List.append_assoc]

theorem drain_open (clean : newline ∉ s.pending) : drain maxBytes s =
    if maxBytes < s.pending.length then (if s.dropping then [] else [.onOverflow],⟨[],true⟩) else ([],s) := by
  rw [drain]
  split
  · rfl
  · rename_i found
    exact absurd ((nextLine_some found).2 ▸ List.mem_append_right _ List.mem_cons_self) clean

theorem drain_line (clean : newline ∉ line) (dropping : Bool) (rest : List UInt8) :
    drain maxBytes ⟨line ++ newline :: rest,dropping⟩ =
      ((if dropping then [] else [judge maxBytes line]) ++ (drain maxBytes ⟨rest,false⟩).1,(drain maxBytes ⟨rest,false⟩).2) := by
  rw [drain]
  have found := nextLine_line line rest clean
  split
  · rename_i absent
    cases found.symm.trans absent
  · rename_i line' rest' found'
    cases found.symm.trans found'
    cases dropping with
    | true => rfl
    | false =>
      simp only [judge,Bool.false_eq_true,if_false]
      split
      · rw [if_neg (by omega)]
        rfl
      · rw [if_pos (by omega)]
        rfl

-- A buffer after a stream: it holds the open row, or drops the rest of one that was too long.
structure Holds (maxBytes : Nat) (stream : List UInt8) (s : LineBuffer) : Prop where
  clean : newline ∉ s.pending
  few : s.pending.length ≤ maxBytes
  row : s.dropping = false → s.pending = openRow newline stream
  long : s.dropping = true → maxBytes < (openRow newline stream).length

theorem Holds.later (holds : Holds maxBytes rest s) (same : openRow newline stream = openRow newline rest) :
    Holds maxBytes stream s :=
  ⟨holds.clean,holds.few,fun kept => (holds.row kept).trans same.symm,fun dropped => same ▸ holds.long dropped⟩

theorem openRow_open (clean : newline ∉ row) : openRow newline row = row := by
  have whole := feed_open [] row clean
  rw [List.nil_append] at whole
  rw [openRow,whole]

theorem openRow_line (clean : newline ∉ line) (rest : List UInt8) :
    openRow newline (line ++ newline :: rest) = openRow newline rest := by
  rw [openRow,feed_line [] line rest clean]
  rfl

theorem drain_exact (stream : List UInt8) : (drain maxBytes ⟨stream,false⟩).1 = callbacks maxBytes stream ∧
    Holds maxBytes stream (drain maxBytes ⟨stream,false⟩).2 := by
  induction size : stream.length using Nat.strong_induction_on generalizing stream with
  | _ n ih =>
    cases found : nextLine newline stream with
    | none =>
      have clean := nextLine_none found
      have row := openRow_open clean
      rw [drain_open clean,callbacks_open clean]
      simp only
      split
      · rename_i long
        exact ⟨rfl,by simp,by simp,nofun,fun _ => row.symm ▸ long⟩
      · rename_i short
        exact ⟨rfl,clean,not_lt.mp short,fun _ => row.symm,nofun⟩
    | some pair =>
      obtain ⟨line,rest⟩ := pair
      obtain ⟨clean,rfl⟩ := nextLine_some found
      have shorter : rest.length < n := by
        simp only [List.length_append,List.length_cons] at size
        omega
      obtain ⟨same,holds⟩ := ih rest.length shorter rest rfl
      rw [drain_line clean,callbacks_line clean,← same]
      exact ⟨rfl,holds.later (openRow_line clean rest)⟩

theorem push_exact (stream chunk : List UInt8) (holds : Holds maxBytes stream s) :
    callbacks maxBytes stream ++ (push maxBytes chunk s).1 = callbacks maxBytes (stream ++ chunk) ∧
      Holds maxBytes (stream ++ chunk) (push maxBytes chunk s).2 := by
  have rowed : openRow newline (stream ++ chunk) = openRow newline (openRow newline stream ++ chunk) := by
    rw [openRow_append,openRow_append,openRow_open (openRow_split stream).1]
  rcases s with ⟨pending,dropping⟩
  rw [callbacks_append,push]
  cases dropping with
  | false =>
    have row := holds.row rfl
    have short := holds.few
    simp only at row short ⊢
    obtain ⟨same,after⟩ := @drain_exact maxBytes (openRow newline stream ++ chunk)
    rw [row] at short ⊢
    rw [callbacks,if_neg (by omega),List.append_nil,same]
    exact ⟨rfl,after.later rowed⟩
  | true =>
    have long := holds.long rfl
    have clean := holds.clean
    simp only at clean ⊢
    rw [callbacks,if_pos long,List.append_assoc]
    cases found : nextLine newline chunk with
    | none =>
      have free : newline ∉ chunk := nextLine_none found
      have none' : newline ∉ pending ++ chunk := fun inside => (List.mem_append.mp inside).elim clean free
      have still : newline ∉ openRow newline stream ++ chunk :=
        fun inside => (List.mem_append.mp inside).elim (openRow_split stream).1 free
      have longer : maxBytes < (openRow newline stream ++ chunk).length := by
        rw [List.length_append]
        omega
      rw [drain_open none',callbacks_open still,if_pos longer]
      simp only [if_true]
      split
      · exact ⟨rfl,by simp,by simp,nofun,fun _ => by rw [rowed,openRow_open still]; exact longer⟩
      · rename_i short
        exact ⟨rfl,none',not_lt.mp short,nofun,fun _ => by rw [rowed,openRow_open still]; exact longer⟩
    | some pair =>
      obtain ⟨line,rest⟩ := pair
      obtain ⟨free,rfl⟩ := nextLine_some found
      have tail : newline ∉ pending ++ line := fun inside => (List.mem_append.mp inside).elim clean free
      have still : newline ∉ openRow newline stream ++ line :=
        fun inside => (List.mem_append.mp inside).elim (openRow_split stream).1 free
      have longer : ¬ (openRow newline stream ++ line).length ≤ maxBytes := by
        rw [List.length_append]
        omega
      have said : callbacks maxBytes (openRow newline stream ++ (line ++ newline :: rest)) =
          .onOverflow :: callbacks maxBytes rest := by
        rw [← List.append_assoc,callbacks_line still,judge,if_neg longer]
      have ends : openRow newline (openRow newline stream ++ (line ++ newline :: rest)) = openRow newline rest := by
        rw [← List.append_assoc,openRow_line still]
      obtain ⟨same,after⟩ := @drain_exact maxBytes rest
      rw [said,← List.append_assoc pending,drain_line tail,← same]
      exact ⟨rfl,after.later (rowed.trans ends)⟩

theorem pushAll_exact (chunks : List (List UInt8)) (stream : List UInt8) (holds : Holds maxBytes stream s) :
    callbacks maxBytes stream ++ (pushAll maxBytes chunks s).1 = callbacks maxBytes (stream ++ chunks.flatten) ∧
      Holds maxBytes (stream ++ chunks.flatten) (pushAll maxBytes chunks s).2 := by
  induction chunks generalizing s stream with
  | nil => simpa [pushAll] using holds
  | cons chunk rest ih =>
    obtain ⟨same,after⟩ := push_exact stream chunk holds
    obtain ⟨whole,last⟩ := ih (stream ++ chunk) after
    rw [pushAll,List.flatten_cons,← List.append_assoc,← List.append_assoc,same]
    exact ⟨whole,last⟩

theorem pushAll_callbacks (maxBytes : Nat) (chunks : List (List UInt8)) :
    (pushAll maxBytes chunks {}).1 = callbacks maxBytes chunks.flatten ∧
      (pushAll maxBytes chunks {}).2.pending.length ≤ maxBytes := by
  have begun : Holds maxBytes [] {} := ⟨by simp,by simp,fun _ => rfl,nofun⟩
  obtain ⟨same,holds⟩ := pushAll_exact chunks [] begun
  exact ⟨same,holds.few⟩

-- The newline of a line too long for the buffer is the first byte of the next chunk.
example : (pushAll 2 [[97,97,97],[10,98,10]] {}).1 = [.onOverflow,.onLine [98]] := by
  rw [(pushAll_callbacks 2 _).1]
  decide

-- However the stream is cut into chunks, what the buffer calls back is what one split of
-- the whole stream says, and it never keeps more than the bound.
theorem chunking_indifferent (maxBytes : Nat) (chunks : List (List UInt8)) :
    (pushAll maxBytes chunks {}).1 = callbacks maxBytes chunks.flatten ∧
      (pushAll maxBytes [chunks.flatten] {}).1 = callbacks maxBytes chunks.flatten ∧
      (pushAll maxBytes chunks {}).2.pending.length ≤ maxBytes := by
  obtain ⟨same,few⟩ := pushAll_callbacks maxBytes chunks
  obtain ⟨once,_⟩ := pushAll_callbacks maxBytes [chunks.flatten]
  refine ⟨same,?_,few⟩
  rw [once,List.flatten_cons,List.flatten_nil,List.append_nil]

end AgentSideCar.Bridge
