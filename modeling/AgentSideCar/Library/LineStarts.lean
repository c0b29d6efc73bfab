import AgentSideCar.Library.Words

namespace AgentSideCar.LineStarts
variable {α : Type} [DecidableEq α] {brk : α → Bool} {cr lf : α}

-- Lines, each with where it starts.
def placed (brk : α → Bool) (cr lf : α) : Bool → Nat → List α → List α → List (Nat × List α)
  | _,at_,line,[] => if line.isEmpty then [] else [(at_,line)]
  | returned,at_,line,c :: rest =>
    if returned && decide (c = lf) then placed brk cr lf false (at_ + 1) line rest
    else if brk c then (at_,line) :: placed brk cr lf (decide (c = cr)) (at_ + line.length + 1) [] rest
    else placed brk cr lf false at_ (line ++ [c]) rest

-- What comes after the first feed.
def afterFeed (lf : α) (t : List α) : Option (List α) := if lf ∈ t then some (t.dropWhile (· ≠ lf)).tail else none

-- The last `n` of a stream, cut where a line starts: at once, if a feed stands right before
-- them, or after their first feed.
def tail (lf : α) (n : Nat) (t : List α) : Option (List α) :=
  let first := t.length - n
  if first ≠ 0 ∧ t[first - 1]? ≠ some lf then afterFeed lf (t.drop first) else some (t.drop first)

-- A feed stands in the window, or right before it, ahead of a place.
def reached (lf : α) (first : Nat) (t : List α) (place : Nat) : Bool := first = 0 || lf ∈ (t.take place).drop (first - 1)

theorem placed_lines (returned : Bool) (at_ : Nat) (line t : List α) :
    (placed brk cr lf returned at_ line t).map Prod.snd = Words.lines brk cr lf returned line t := by
  induction t generalizing returned at_ line with
  | nil =>
    rw [placed,Words.lines]
    split <;> rfl
  | cons c rest ih =>
    rw [placed,Words.lines]
    split
    · exact ih _ _ _
    · split
      · rw [List.map_cons,ih]
      · exact ih _ _ _

theorem placed_bounds (inside : e ∈ placed brk cr lf returned at_ line t) : at_ ≤ e.1 ∧ e.1 < at_ + line.length + t.length := by
  induction t generalizing returned at_ line with
  | nil =>
    rw [placed] at inside
    split at inside
    · cases inside
    · rename_i some'
      rw [List.mem_singleton.mp inside]
      have := List.length_pos_iff.mpr (by simpa using some')
      exact ⟨le_refl _,by simpa using this⟩
  | cons c rest ih =>
    rw [placed] at inside
    rw [List.length_cons]
    split at inside
    · have := ih inside
      omega
    · split at inside
      · rcases List.mem_cons.mp inside with rfl | later
        · exact ⟨le_refl _,by omega⟩
        · have := ih later
          rw [List.length_nil] at this
          omega
      · have := ih inside
        rw [List.length_append,List.length_singleton] at this
        omega

theorem placed_sorted (returned : Bool) (at_ : Nat) (line t : List α) :
    (placed brk cr lf returned at_ line t).Pairwise fun e d => e.1 < d.1 := by
  induction t generalizing returned at_ line with
  | nil =>
    rw [placed]
    split
    · exact List.Pairwise.nil
    · exact List.pairwise_singleton _ _
  | cons c rest ih =>
    rw [placed]
    split
    · exact ih _ _ _
    · split
      · refine List.pairwise_cons.mpr ⟨fun e later => ?_,ih _ _ _⟩
        have := (placed_bounds later).1
        omega
      · exact ih _ _ _

theorem placed_append (feeds : brk lf = true) (apart : lf ≠ cr) (returned : Bool) (at_ : Nat) (line before after : List α)
    (fresh : returned = true → line = []) : placed brk cr lf returned at_ line (before ++ lf :: after) =
      placed brk cr lf returned at_ line (before ++ [lf]) ++
        placed brk cr lf false (at_ + line.length + before.length + 1) [] after := by
  induction before generalizing returned at_ line with
  | nil =>
    cases returned with
    | true => simp [placed,fresh rfl]
    | false => simp [placed,feeds,apart]
  | cons c rest ih =>
    simp only [List.cons_append,placed]
    split
    · rename_i both
      obtain ⟨rfl,_⟩ : returned = true ∧ c = lf := by simpa using both
      rw [ih _ _ _ fun _ => fresh rfl]
      congr 2
      simp only [List.length_cons]
      omega
    · split
      · rw [ih _ _ _ fun _ => rfl,List.cons_append]
        congr 3
        simp only [List.length_cons,List.length_nil]
        omega
      · rw [ih false _ _ nofun]
        congr 2
        simp only [List.length_append,List.length_cons,List.length_nil]
        omega

theorem placed_solid (solid : ∀ c ∈ more, brk c = false) (at_ : Nat) (line rest : List α) :
    placed brk cr lf false at_ line (more ++ rest) = placed brk cr lf false at_ (line ++ more) rest := by
  induction more generalizing line with
  | nil => simp
  | cons c more ih =>
    rw [List.cons_append,placed,if_neg (by simp),if_neg (by simp [solid c List.mem_cons_self]),
      ih fun d inside => solid d (List.mem_cons_of_mem _ inside),List.append_assoc,List.singleton_append]

theorem placed_after (feeds : brk lf = true) (apart : lf ≠ cr) (before after : List α) :
    (placed brk cr lf false 0 [] (before ++ lf :: after)).filter (before.length < ·.1) =
      placed brk cr lf false (before.length + 1) [] after := by
  have earlier : (placed brk cr lf false 0 [] (before ++ [lf])).filter (before.length < ·.1) = [] := by
    refine List.filter_eq_nil_iff.mpr fun e inside => ?_
    have := (placed_bounds inside).2
    simp at this ⊢
    omega
  have later : (placed brk cr lf false (before.length + 1) [] after).filter (before.length < ·.1) =
      placed brk cr lf false (before.length + 1) [] after := by
    refine List.filter_eq_self.mpr fun e inside => ?_
    have := (placed_bounds inside).1
    simp
    omega
  rw [placed_append feeds apart false _ _ _ _ (absurd · Bool.false_ne_true),List.filter_append,earlier,List.nil_append]
  simpa using later

theorem afterFeed_split (mid : List α) (rest : List α) (free : lf ∉ mid) : afterFeed lf (mid ++ lf :: rest) = some rest := by
  have all : ∀ c ∈ mid, decide (c ≠ lf) = true := fun c inside => by
    simpa using fun same : c = lf => free (same ▸ inside)
  rw [afterFeed,if_pos (by simp),List.dropWhile_append_of_pos all]
  simp

theorem tail_afterFeed (opened : t.length - n ≠ 0) : tail lf n t = afterFeed lf (t.drop (t.length - n - 1)) := by
  have inside : t.length - n - 1 < t.length := by omega
  have whole : t.drop (t.length - n - 1) = t[t.length - n - 1] :: t.drop (t.length - n) := by
    rw [List.drop_eq_getElem_cons inside]
    congr 2
    omega
  rw [tail,whole]
  by_cases same : t[t.length - n - 1] = lf
  · rw [if_neg (by simp [inside,same]),same]
    exact (afterFeed_split [] _ List.not_mem_nil).symm
  · rw [if_pos ⟨opened,by simpa [inside] using same⟩,afterFeed,afterFeed]
    simp [same,Ne.symm same]

omit [DecidableEq α] in
theorem reached_split (before mid rest : List α) (free : lf ∉ mid) (place : Nat) :
    lf ∈ ((before ++ (mid ++ lf :: rest)).take place).drop before.length ↔ before.length + mid.length < place := by
  rw [List.drop_take,List.drop_left]
  constructor
  · intro inside
    by_contra short
    have taken : (mid ++ lf :: rest).take (place - before.length) <+: mid := by
      rw [List.take_append_of_le_length (by omega)]
      exact List.take_prefix _ _
    exact free (taken.subset inside)
  · intro far
    have taken : mid ++ [lf] <+: (mid ++ lf :: rest).take (place - before.length) := by
      refine List.prefix_take_iff.mpr ⟨⟨rest,by simp⟩,?_⟩
      rw [List.length_append,List.length_singleton]
      omega
    exact taken.subset (by simp)

theorem tail_placed (feeds : brk lf = true) (apart : lf ≠ cr) (n : Nat) (t : List α) :
    (tail lf n t).elim [] (Words.lines brk cr lf false []) =
      ((placed brk cr lf false 0 [] t).filter fun e => reached lf (t.length - n) t e.1).map Prod.snd := by
  by_cases whole : t.length - n = 0
  · have all : tail lf n t = some t := by simp [tail,whole]
    rw [all,whole]
    simp [reached,placed_lines]
  · rw [tail_afterFeed whole]
    have early : (t.take (t.length - n - 1)).length = t.length - n - 1 := by
      rw [List.length_take]
      omega
    by_cases fed : lf ∈ t.drop (t.length - n - 1)
    · obtain ⟨mid,rest,same,free⟩ := List.eq_append_cons_of_mem fed
      have split : t = t.take (t.length - n - 1) ++ (mid ++ lf :: rest) := by rw [← same,List.take_append_drop]
      have near (place : Nat) : reached lf (t.length - n) t place = decide ((t.take (t.length - n - 1) ++ mid).length < place) := by
        have := reached_split (t.take (t.length - n - 1)) mid rest free place
        rw [← split,early] at this
        simp only [reached,whole,decide_false,Bool.false_or,this,List.length_append,early]
      have later := placed_after feeds apart (t.take (t.length - n - 1) ++ mid) rest
      rw [List.append_assoc,← split] at later
      simp only [near,later]
      rw [same,afterFeed_split mid rest free,placed_lines]
      rfl
    · have never (place : Nat) : reached lf (t.length - n) t place = false := by
        have none : lf ∉ (t.take place).drop (t.length - n - 1) := by
          rw [List.drop_take]
          exact fun inside => fed (List.mem_of_mem_take inside)
        simp [reached,whole,none]
      rw [afterFeed,if_neg fed]
      simp [never]

theorem reached_mono (further : place ≤ later) (near : reached lf first t place = true) : reached lf first t later = true := by
  rw [reached,Bool.or_eq_true] at near ⊢
  refine near.imp_right fun inside => ?_
  rw [decide_eq_true_eq] at inside ⊢
  have longer : (t.take place).drop (first - 1) <+: (t.take later).drop (first - 1) := by
    rw [List.drop_take,List.drop_take]
    exact List.take_prefix_take_left (by omega)
  exact longer.subset inside

end AgentSideCar.LineStarts
