import Mathlib.Data.List.TakeWhile

namespace AgentSideCar.Lines
variable {α : Type} [DecidableEq α]

-- The lines a stream completes and the row it leaves open.
def feed (sep : α) : List α → List α → List (List α) × List α
  | row,[] => ([],row)
  | row,x :: rest =>
    if x = sep then (row :: (feed sep [] rest).1,(feed sep [] rest).2) else feed sep (row ++ [x]) rest

def lines (sep : α) (stream : List α) : List (List α) := (feed sep [] stream).1
def openRow (sep : α) (stream : List α) : List α := (feed sep [] stream).2

variable {sep : α}

theorem feed_append (row first second : List α) : feed sep row (first ++ second) =
    ((feed sep row first).1 ++ (feed sep (feed sep row first).2 second).1,
      (feed sep (feed sep row first).2 second).2) := by
  induction first generalizing row with
  | nil => rfl
  | cons x rest ih =>
    simp only [List.cons_append,feed]
    split
    · simp [ih]
    · rw [ih]

theorem lines_append (first second : List α) :
    lines sep (first ++ second) = lines sep first ++ (feed sep (openRow sep first) second).1 := by
  rw [lines,feed_append]; rfl

theorem openRow_append (first second : List α) :
    openRow sep (first ++ second) = (feed sep (openRow sep first) second).2 := by
  rw [openRow,feed_append]; rfl

theorem lines_begin {first whole : List α} (begun : first <+: whole) : lines sep first <+: lines sep whole := by
  obtain ⟨rest,rfl⟩ := begun
  rw [lines_append]
  exact List.prefix_append _ _

theorem feed_open (row segment : List α) (clean : sep ∉ segment) : feed sep row segment = ([],row ++ segment) := by
  induction segment generalizing row with
  | nil => simp [feed]
  | cons x rest ih =>
    have apart : ¬ x = sep := fun same => clean (same ▸ List.mem_cons_self)
    have later : sep ∉ rest := fun inside => clean (List.mem_cons_of_mem _ inside)
    rw [feed,if_neg apart,ih _ later,List.append_assoc]
    rfl

theorem feed_line (row segment rest : List α) (clean : sep ∉ segment) : feed sep row (segment ++ sep :: rest) =
    ((row ++ segment) :: (feed sep [] rest).1,(feed sep [] rest).2) := by
  rw [feed_append,feed_open row segment clean]
  simp [feed]

theorem feed_rows (rows : List (List α)) (row : List α) (clean : ∀ row ∈ rows, sep ∉ row) (last : sep ∉ row) :
    feed sep [] (rows.flatMap (· ++ [sep]) ++ row) = (rows,row) := by
  induction rows with
  | nil => exact feed_open [] row last
  | cons first rest ih =>
    have later := ih fun row inside => clean row (List.mem_cons_of_mem _ inside)
    rw [List.flatMap_cons,List.append_assoc,List.append_assoc]
    show feed sep [] (first ++ sep :: (rest.flatMap (· ++ [sep]) ++ row)) = _
    rw [feed_line _ _ _ (clean first List.mem_cons_self),later]
    rfl

-- The first line of what remains, as find gives it.
def nextLine (sep : α) (stream : List α) : Option (List α × List α) :=
  if sep ∈ stream then some (stream.takeWhile (· ≠ sep),(stream.dropWhile (· ≠ sep)).drop 1) else none

theorem nextLine_some {segment rest : List α} (found : nextLine sep stream = some (segment,rest)) :
    sep ∉ segment ∧ stream = segment ++ sep :: rest := by
  unfold nextLine at found
  split at found
  · rename_i inside
    cases found
    refine ⟨fun within => by simpa using List.mem_takeWhile_imp within,?_⟩
    have stops : (stream.dropWhile (· ≠ sep)).head? = some sep := by
      induction stream with
      | nil => cases inside
      | cons x later ih =>
        by_cases same : x = sep
        · simp [same]
        · have := ih ((List.mem_cons.mp inside).resolve_left (Ne.symm same))
          simpa [List.dropWhile_cons,same] using this
    conv => lhs; rw [← List.takeWhile_append_dropWhile (p := (· ≠ sep)) (l := stream)]
    cases remaining : stream.dropWhile (· ≠ sep) with
    | nil => rw [remaining] at stops; cases stops
    | cons y later =>
      rw [remaining] at stops
      cases stops
      rfl
  · cases found

theorem nextLine_line (line rest : List α) (clean : sep ∉ line) : nextLine sep (line ++ sep :: rest) = some (line,rest) := by
  have within : ∀ x ∈ line, decide (x ≠ sep) = true := fun x inside => by simpa using fun same : x = sep => clean (same ▸ inside)
  rw [nextLine,if_pos (by simp),List.takeWhile_append_of_pos within,List.dropWhile_append_of_pos within]
  simp

theorem nextLine_none (absent : nextLine sep stream = none) : sep ∉ stream := by
  unfold nextLine at absent
  split at absent
  · cases absent
  · assumption

theorem feed_count (row stream : List α) : (feed sep row stream).1.length ≤ stream.length := by
  induction stream generalizing row with
  | nil => exact le_rfl
  | cons x rest ih =>
    rw [feed]
    split
    · simpa using ih []
    · exact (ih _).trans (Nat.le_succ _)

theorem openRow_split (stream : List α) : sep ∉ openRow sep stream ∧
    (stream = openRow sep stream ∨ ∃ closed, stream = closed ++ sep :: openRow sep stream) := by
  have general : ∀ row stream : List α, sep ∉ row → sep ∉ (feed sep row stream).2 ∧
      (row ++ stream = (feed sep row stream).2 ∨ ∃ closed, row ++ stream = closed ++ sep :: (feed sep row stream).2) := by
    intro row stream clean
    induction stream generalizing row with
    | nil => exact ⟨by simpa [feed] using clean,.inl (by simp [feed])⟩
    | cons x rest ih =>
      rw [feed]
      split
      · rename_i same
        obtain ⟨fresh,split⟩ := ih [] (by simp)
        refine ⟨fresh,.inr ?_⟩
        rcases split with whole | ⟨closed,whole⟩
        · exact ⟨row,by rw [← whole,same]; rfl⟩
        · refine ⟨row ++ sep :: closed,?_⟩
          rw [List.append_assoc,List.cons_append,← whole,same]
          rfl
      · rename_i differs
        have := ih (row ++ [x]) (by simp [clean,Ne.symm differs])
        simpa [List.append_assoc] using this
  exact general [] stream (by simp)

-- Every line of a whole stream, one that nothing ends included.
def allLines (sep : α) (stream : List α) : List (List α) :=
  lines sep stream ++ if openRow sep stream = [] then [] else [openRow sep stream]

@[simp] theorem allLines_nil : allLines sep [] = [] := rfl

theorem allLines_line {segment : List α} (rest : List α) (clean : sep ∉ segment) :
    allLines sep (segment ++ sep :: rest) = segment :: allLines sep rest := by
  have cut := feed_line [] segment rest clean
  rw [List.nil_append] at cut
  simp only [allLines,lines,openRow,cut,List.cons_append]
  rfl

theorem allLines_last {segment : List α} (clean : sep ∉ segment) (some' : segment ≠ []) :
    allLines sep segment = [segment] := by
  have open' := feed_open [] segment clean
  rw [List.nil_append] at open'
  simp [allLines,lines,openRow,open',some']

theorem allLines_begins {segment : List α} (rest : List α) (clean : sep ∉ segment) (some' : segment ≠ []) :
    ∃ more, segment ++ more ∈ allLines sep (segment ++ rest) := by
  cases found : nextLine sep rest with
  | some pair =>
    obtain ⟨more,later⟩ := pair
    obtain ⟨free,cut⟩ := nextLine_some found
    refine ⟨more,?_⟩
    rw [cut,←List.append_assoc,allLines_line later (fun inside => (List.mem_append.mp inside).elim clean free)]
    exact List.mem_cons_self
  | none =>
    have free := nextLine_none found
    refine ⟨rest,?_⟩
    rw [allLines_last (fun inside => (List.mem_append.mp inside).elim clean free) (by simp [some'])]
    exact List.mem_singleton_self _

end AgentSideCar.Lines
