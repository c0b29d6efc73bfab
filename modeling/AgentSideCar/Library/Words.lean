import Mathlib.Data.List.DropRight
import Mathlib.Data.List.TakeWhile

namespace AgentSideCar.Words
variable {α : Type} {space brk : α → Bool}

-- Splitting at runs of blanks: at most `n` times, what is left as it is; and as
-- often as there are blanks.
def split (space : α → Bool) : Nat → List α → List (List α)
  | 0,t => match t.dropWhile space with
    | [] => []
    | rest => [rest]
  | n + 1,t => match t.dropWhile space with
    | [] => []
    | rest => rest.takeWhile (!space ·) :: split space n (rest.dropWhile (!space ·))

def words (space : α → Bool) : List α → List α → List (List α)
  | word,[] => if word.isEmpty then [] else [word]
  | word,c :: rest =>
    if space c then (if word.isEmpty then [] else [word]) ++ words space [] rest else words space (word ++ [c]) rest

def strip (space : α → Bool) (t : List α) : List α := (t.dropWhile space).rdropWhile space

-- Lines that end at a break; a return and the feed right after it are one.
def lines [DecidableEq α] (brk : α → Bool) (cr lf : α) : Bool → List α → List α → List (List α)
  | _,line,[] => if line.isEmpty then [] else [line]
  | returned,line,c :: rest =>
    if returned && decide (c = lf) then lines brk cr lf false line rest
    else if brk c then line :: lines brk cr lf (decide (c = cr)) [] rest
    else lines brk cr lf false (line ++ [c]) rest

-- Words with one `sep` between each two.
def join (sep : α) : List (List α) → List α
  | [] => []
  | [word] => word
  | word :: next :: rest => word ++ sep :: join sep (next :: rest)

-- A word ends where a blank follows, or nothing does.
def Ends (space : α → Bool) (t : List α) : Prop := ∀ c, t.head? = some c → space c = true

theorem takeWhile_word {word rest : List α} (solid : ∀ c ∈ word, space c = false) (ends : Ends space rest) :
    (word ++ rest).takeWhile (!space ·) = word ∧ (word ++ rest).dropWhile (!space ·) = rest := by
  have all : ∀ c ∈ word, (!space c) = true := fun c inside => by simp [solid c inside]
  rw [List.takeWhile_append_of_pos all,List.dropWhile_append_of_pos all]
  cases rest with
  | nil => simp
  | cons c rest =>
    have blank := ends c rfl
    simp [blank]

theorem split_word {gap word rest : List α} (n : Nat) (blank : ∀ c ∈ gap, space c = true) (some' : word ≠ [])
    (solid : ∀ c ∈ word, space c = false) (ends : Ends space rest) :
    split space (n + 1) (gap ++ (word ++ rest)) = word :: split space n rest := by
  obtain ⟨takes,drops⟩ := takeWhile_word solid ends
  have start : (gap ++ (word ++ rest)).dropWhile space = word ++ rest := by
    obtain ⟨first,later,rfl⟩ := List.exists_cons_of_ne_nil some'
    rw [List.dropWhile_append_of_pos blank]
    simp [solid first List.mem_cons_self]
  rw [split,start]
  split
  · rename_i none
    exact absurd (List.append_eq_nil_iff.mp none).1 some'
  · rw [takes,drops]

theorem rdropWhile_append (t late : List α) : (t ++ late).rdropWhile space =
    if late.rdropWhile space = [] then t.rdropWhile space else t ++ late.rdropWhile space := by
  simp only [List.rdropWhile,List.reverse_append,List.dropWhile_append,List.isEmpty_iff,List.reverse_eq_nil_iff]
  split <;> simp

theorem rdropWhile_word {word : List α} (before rest : List α) (some' : word ≠ []) (solid : ∀ c ∈ word, space c = false) :
    (before ++ (word ++ rest)).rdropWhile space = before ++ (word ++ rest.rdropWhile space) := by
  have kept : word.rdropWhile space = word := by
    obtain ⟨early,last,rfl⟩ := List.eq_nil_or_concat' word |>.resolve_left some'
    rw [List.rdropWhile_concat_neg _ _ _ (by simp [solid last (by simp)])]
  have whole : (word ++ rest).rdropWhile space = word ++ rest.rdropWhile space := by
    rw [rdropWhile_append]
    split
    · rename_i none'
      rw [none',kept,List.append_nil]
    · rfl
  rw [rdropWhile_append,whole,if_neg (by simp [some'])]

theorem strip_word {gap word : List α} (rest : List α) (blank : ∀ c ∈ gap, space c = true) (some' : word ≠ [])
    (solid : ∀ c ∈ word, space c = false) : strip space (gap ++ (word ++ rest)) = word ++ rest.rdropWhile space := by
  have start : (word ++ rest).dropWhile space = word ++ rest := by
    obtain ⟨c,later,rfl⟩ := List.exists_cons_of_ne_nil some'
    rw [List.cons_append,List.dropWhile_cons_of_neg (by simp [solid c List.mem_cons_self])]
  have tail := rdropWhile_word [] rest some' solid
  rw [List.nil_append,List.nil_append] at tail
  rw [strip,List.dropWhile_append_of_pos blank,start,tail]

theorem ends_begins {t late : List α} (begins : t <+: late) (ends : Ends space late) : Ends space t := by
  obtain ⟨rest,rfl⟩ := begins
  intro c first
  refine ends c ?_
  cases t with
  | nil => cases first
  | cons d t => exact first

theorem strip_turned (t : List α) : strip space t = (t.rdropWhile space).dropWhile space := by
  induction t with
  | nil => rfl
  | cons c rest ih =>
    cases blank : space c with
    | false =>
      have kept := @rdropWhile_word _ space [c] [] rest (List.cons_ne_nil _ _) (by simp [blank])
      have shape : (c :: rest).rdropWhile space = c :: rest.rdropWhile space := kept
      rw [strip,List.dropWhile_cons_of_neg (by simp [blank]),shape,List.dropWhile_cons_of_neg (by simp [blank])]
    | true =>
      rw [strip,List.dropWhile_cons_of_pos blank,← strip,ih]
      have front := @rdropWhile_append _ space [c] rest
      rw [List.singleton_append] at front
      rw [front]
      split
      · rename_i none'
        rw [none']
        simp [List.rdropWhile,blank]
      · rw [List.singleton_append,List.dropWhile_cons_of_pos blank]

theorem strip_parts (t : List α) : ∃ before after, t = before ++ strip space t ++ after ∧ ∀ c ∈ before ++ after, space c = true := by
  refine ⟨t.takeWhile space,(t.dropWhile space).rtakeWhile space,?_,?_⟩
  · rw [strip,List.append_assoc,List.rdropWhile_append_rtakeWhile,List.takeWhile_append_dropWhile]
  · intro c inside
    rcases List.mem_append.mp inside with first | last
    · exact List.mem_takeWhile_imp first
    · exact List.mem_rtakeWhile_imp last

theorem strip_starts (t : List α) : (strip space t).dropWhile space = strip space t := by
  rw [strip_turned,List.dropWhile_idempotent]

theorem strip_ends (t : List α) : (strip space t).rdropWhile space = strip space t := by
  rw [strip,List.rdropWhile_idempotent]

theorem strip_settled (t : List α) : strip space (strip space t) = strip space t := by
  conv => lhs; rw [strip,strip_starts,strip_ends]

theorem strip_padded {before word after : List α} (blank : ∀ c ∈ before ++ after, space c = true) (tight : strip space word = word) :
    strip space (before ++ word ++ after) = word := by
  have starts := @strip_starts _ space word
  have ends := @strip_ends _ space word
  rw [tight] at starts ends
  have back : after.rdropWhile space = [] :=
    List.rdropWhile_eq_nil_iff.mpr fun c inside => blank c (List.mem_append_right before inside)
  rw [strip_turned,rdropWhile_append,if_pos back,rdropWhile_append]
  have front : before.dropWhile space = [] := List.dropWhile_eq_nil_iff.mpr fun c inside => blank c (List.mem_append_left after inside)
  rw [ends]
  split
  · rename_i none'
    have first : before.rdropWhile space = [] :=
      List.rdropWhile_eq_nil_iff.mpr fun c inside => blank c (List.mem_append_left after inside)
    rw [first,none']
    rfl
  · rw [List.dropWhile_append,front,starts]
    rfl

theorem splitOn_clean [BEq α] [LawfulBEq α] (sep : α) (t : List α) : ∀ part ∈ t.splitOn sep, sep ∉ part := by
  induction t with
  | nil => simp
  | cons c t ih =>
    rw [List.splitOn_cons_eq_if_modifyHead]
    split
    · exact List.forall_mem_cons.mpr ⟨List.not_mem_nil,ih⟩
    · rename_i other
      obtain ⟨part,parts,shape⟩ := List.exists_cons_of_ne_nil (List.splitOn_ne_nil sep t)
      rw [shape] at ih ⊢
      obtain ⟨first,later⟩ := List.forall_mem_cons.mp ih
      refine List.forall_mem_cons.mpr ⟨?_,later⟩
      intro inside
      rcases List.mem_cons.mp inside with same | within
      · exact other (by simp [same])
      · exact first within

theorem words_solid {word : List α} (clean : ∀ c ∈ word, space c = false) (t : List α) :
    ∀ w ∈ words space word t, w ≠ [] ∧ ∀ c ∈ w, space c = false := by
  induction t generalizing word with
  | nil =>
    intro w inside
    rw [words] at inside
    split at inside
    · cases inside
    · rename_i some'
      cases List.mem_singleton.mp inside
      exact ⟨by simpa using some',clean⟩
  | cons c rest ih =>
    intro w inside
    rw [words] at inside
    split at inside
    · rcases List.mem_append.mp inside with own | later
      · split at own
        · cases own
        · rename_i some'
          cases List.mem_singleton.mp own
          exact ⟨by simpa using some',clean⟩
      · exact ih (by simp) w later
    · rename_i solid
      refine ih (fun d among => ?_) w inside
      rcases List.mem_append.mp among with old | new
      · exact clean d old
      · cases List.mem_singleton.mp new
        simpa using solid

theorem words_last {c : α} (blank : space c = true) (word t : List α) : words space word (t ++ [c]) = words space word t := by
  induction t generalizing word with
  | nil => simp [words,blank]
  | cons d rest ih => simp only [List.cons_append,words,ih]

theorem words_word {word : List α} (before : List α) (solid : ∀ c ∈ word, space c = false) (t : List α) :
    words space before (word ++ t) = words space (before ++ word) t := by
  induction word generalizing before with
  | nil => simp
  | cons c rest ih =>
    have later := ih (before ++ [c]) fun d inside => solid d (List.mem_cons_of_mem _ inside)
    rw [List.cons_append,words,if_neg (by simp [solid c List.mem_cons_self]),later]
    simp

theorem words_join {sep : α} (blank : space sep = true) (ws : List (List α))
    (fits : ∀ w ∈ ws, w ≠ [] ∧ ∀ c ∈ w, space c = false) : words space [] (join sep ws) = ws := by
  induction ws with
  | nil => rfl
  | cons word rest ih =>
    obtain ⟨some',solid⟩ := fits word List.mem_cons_self
    have later := ih fun w inside => fits w (List.mem_cons_of_mem _ inside)
    cases rest with
    | nil =>
      have alone := words_word [] solid []
      rw [List.append_nil,List.nil_append] at alone
      rw [join,alone,words,if_neg (by simpa using some')]
    | cons next rest =>
      rw [join,words_word [] solid,List.nil_append,words,if_pos blank,if_neg (by simpa using some'),later]
      rfl

section Lines
variable [DecidableEq α] {cr lf : α}

theorem lines_append (feeds : brk lf = true) (apart : lf ≠ cr) (returned : Bool) (line before after : List α)
    (fresh : returned = true → line = []) : lines brk cr lf returned line (before ++ lf :: after) =
      lines brk cr lf returned line (before ++ [lf]) ++ lines brk cr lf false [] after := by
  induction before generalizing returned line with
  | nil =>
    cases returned with
    | true => simp [lines,fresh rfl]
    | false => simp [lines,feeds,apart]
  | cons c rest ih =>
    simp only [List.cons_append,lines]
    split
    · rename_i joined
      exact ih false line nofun
    · split
      · rw [ih _ [] fun _ => rfl,List.cons_append]
      · exact ih false _ nofun

theorem lines_first (feeds : brk lf = true) (line text after : List α) :
    ∃ more, lines brk cr lf false line (text ++ lf :: after) = (line ++ text.takeWhile (!brk ·)) :: more := by
  induction text generalizing line with
  | nil =>
    refine ⟨lines brk cr lf (decide (lf = cr)) [] after,?_⟩
    simp [lines,feeds]
  | cons c rest ih =>
    by_cases breaks : brk c = true
    · refine ⟨lines brk cr lf (decide (c = cr)) [] (rest ++ lf :: after),?_⟩
      simp [lines,breaks]
    · obtain ⟨more,same⟩ := ih (line ++ [c])
      exact ⟨more,by simpa [lines,breaks] using same⟩

theorem lines_single (feeds : brk lf = true) (line text : List α) (whole : ∀ c ∈ text, brk c = false) :
    lines brk cr lf false line (text ++ [lf]) = [line ++ text] := by
  induction text generalizing line with
  | nil => simp [lines,feeds]
  | cons c rest ih =>
    have next := ih (line ++ [c]) fun d inside => whole d (List.mem_cons_of_mem _ inside)
    simpa [lines,whole c List.mem_cons_self] using next

end Lines
end AgentSideCar.Words
