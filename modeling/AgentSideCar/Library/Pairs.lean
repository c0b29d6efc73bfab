import AgentSideCar.Library.Markers

namespace AgentSideCar.Pairs
variable {α : Type} [DecidableEq α] {a z : α}

-- Lines that a pair of signs parts: cut at every pair, and joined with one between each two.
def cut (a z : α) : List α → List (List α)
  | [] => [[]]
  | [c] => [[c]]
  | c :: d :: rest =>
    if c = a ∧ d = z then [] :: cut a z rest
    else match cut a z (d :: rest) with
      | [] => [[c]]
      | line :: lines => (c :: line) :: lines

def join (a z : α) : List (List α) → List α
  | [] => []
  | [line] => line
  | line :: next :: lines => line ++ a :: z :: join a z (next :: lines)

-- An empty line: two pairs in a row.
def blank (a z : α) : List α := [a,z,a,z]

theorem cut_some (t : List α) : cut a z t ≠ [] := by
  fun_cases cut a z t <;> simp_all

omit [DecidableEq α] in
theorem join_cons (c : α) (line : List α) (lines : List (List α)) :
    join a z ((c :: line) :: lines) = c :: join a z (line :: lines) := by
  cases lines <;> rfl

theorem join_cut (t : List α) : join a z (cut a z t) = t := by
  fun_induction cut a z t with
  | case1 | case2 => rfl
  | case3 c d rest pair ih =>
    obtain ⟨rfl,rfl⟩ := pair
    obtain ⟨line,lines,shape⟩ := List.exists_cons_of_ne_nil (cut_some (a := c) (z := d) rest)
    rw [shape] at ih ⊢
    show c :: d :: join c d (line :: lines) = _
    rw [ih]
  | case4 c d rest _ none' => exact absurd none' (cut_some _)
  | case5 c d rest _ line lines shape ih =>
    rw [shape] at ih
    rw [join_cons,ih]

theorem cut_single {line : List α} (clean : z ∉ line) : cut a z line = [line] := by
  fun_induction cut a z line with
  | case1 | case2 => rfl
  | case3 c d rest pair ih => simp [pair.2] at clean
  | case4 c d rest _ none' => exact absurd none' (cut_some _)
  | case5 c d rest _ line lines shape ih =>
    have own := ih fun inside => clean (List.mem_cons_of_mem c inside)
    rw [shape] at own
    obtain ⟨rfl,rfl⟩ := List.cons.inj own
    rfl

theorem cut_line (signs : a ≠ z) {line : List α} (clean : z ∉ line) (rest : List α) :
    cut a z (line ++ a :: z :: rest) = line :: cut a z rest := by
  induction line with
  | nil => simp [cut]
  | cons c line ih =>
    have own := ih fun inside => clean (List.mem_cons_of_mem c inside)
    obtain ⟨d,later,shape,other⟩ : ∃ d later, line ++ a :: z :: rest = d :: later ∧ d ≠ z := by
      cases line with
      | nil => exact ⟨a,z :: rest,rfl,signs⟩
      | cons d line => exact ⟨d,line ++ a :: z :: rest,rfl,fun same => clean (by simp [same])⟩
    rw [shape] at own
    rw [List.cons_append,shape,cut,if_neg (fun pair => other pair.2),own]

theorem cut_join (signs : a ≠ z) (clean : ∀ line ∈ lines, z ∉ line) (some' : lines ≠ []) : cut a z (join a z lines) = lines := by
  induction lines with
  | nil => exact absurd rfl some'
  | cons line lines ih =>
    obtain ⟨here,later⟩ := List.forall_mem_cons.mp clean
    cases lines with
    | nil => exact cut_single here
    | cons next lines =>
      rw [join,cut_line signs here,ih later (List.cons_ne_nil _ _)]

open Markers (first)

theorem blank_line (signs : a ≠ z) {line : List α} (clean : z ∉ line) (rest : List α) :
    first (blank a z) (line ++ a :: rest) = (first (blank a z) (a :: rest)).map (· + line.length) := by
  induction line with
  | nil => simp
  | cons c line ih =>
    have apart : ¬ blank a z <+: c :: (line ++ a :: rest) := by
      rintro ⟨more,same⟩
      obtain ⟨_,same⟩ := List.cons.inj same
      cases line with
      | nil => exact signs (List.cons.inj same).1.symm
      | cons d line => exact clean (by simp [(List.cons.inj same).1])
    rw [List.cons_append,Markers.first_later apart,ih (fun inside => clean (List.mem_cons_of_mem c inside)),Option.map_map]
    rfl

theorem blank_pair (signs : a ≠ z) {rest : List α} (other : ¬ [a,z] <+: rest) :
    first (blank a z) (a :: z :: rest) = (first (blank a z) rest).map (· + 2) := by
  have here : ¬ blank a z <+: a :: z :: rest := fun begins =>
    other (List.cons_prefix_cons.mp (List.cons_prefix_cons.mp begins).2).2
  have next : ¬ blank a z <+: z :: rest := fun begins => signs (List.cons_prefix_cons.mp begins).1
  rw [Markers.first_later here,Markers.first_later next,Option.map_map]
  rfl

omit [DecidableEq α] in
theorem pair_refused (signs : a ≠ z) {line : List α} (clean : z ∉ line) (some' : line ≠ []) (rest : List α) :
    ¬ [a,z] <+: line ++ a :: rest := by
  rintro ⟨more,same⟩
  obtain ⟨c,line,rfl⟩ := List.exists_cons_of_ne_nil some'
  obtain ⟨_,same⟩ := List.cons.inj same
  cases line with
  | nil => exact signs (List.cons.inj same).1.symm
  | cons d line => exact clean (by simp [(List.cons.inj same).1])

omit [DecidableEq α] in
theorem join_within {line : List α} {lines : List (List α)} (inside : line ∈ lines) : line <:+: join a z lines := by
  induction lines with
  | nil => cases inside
  | cons first later ih =>
    cases later with
    | nil =>
      rw [List.mem_singleton.mp inside]
      exact List.infix_refl _
    | cons next rest =>
      rcases List.mem_cons.mp inside with rfl | there
      · exact (List.prefix_append _ _).isInfix
      · obtain ⟨before,after,whole⟩ := ih there
        exact ⟨first ++ a :: z :: before,after,by simp [join,← whole]⟩

omit [DecidableEq α] in
theorem join_begins (line : List α) (lines : List (List α)) (rest : List α) :
    ∃ later, join a z (line :: lines) ++ blank a z ++ rest = line ++ a :: later := by
  cases lines with
  | nil => exact ⟨_,by simp [join,blank]; rfl⟩
  | cons next lines => exact ⟨_,by simp only [join,List.append_assoc,List.cons_append]; rfl⟩

theorem blank_exact (signs : a ≠ z) (clean : ∀ line ∈ lines, z ∉ line ∧ line ≠ []) (some' : lines ≠ []) (rest : List α) :
    first (blank a z) (join a z lines ++ blank a z ++ rest) = some (join a z lines).length := by
  induction lines with
  | nil => exact absurd rfl some'
  | cons line lines ih =>
    obtain ⟨here,later⟩ := List.forall_mem_cons.mp clean
    cases lines with
    | nil =>
      have stands : blank a z <+: a :: ([z,a,z] ++ rest) := List.prefix_append _ rest
      rw [join,List.append_assoc]
      show first (blank a z) (line ++ a :: ([z,a,z] ++ rest)) = _
      rw [blank_line signs here.1,Markers.first_here stands]
      simp
    | cons next lines =>
      have own := ih later (List.cons_ne_nil _ _)
      have shape : join a z (line :: next :: lines) ++ blank a z ++ rest =
          line ++ a :: z :: (join a z (next :: lines) ++ blank a z ++ rest) := by simp [join]
      obtain ⟨tail,begins⟩ := join_begins (a := a) (z := z) next lines rest
      have apart : ¬ [a,z] <+: join a z (next :: lines) ++ blank a z ++ rest := by
        obtain ⟨next_clean,next_some⟩ := later next List.mem_cons_self
        rw [begins]
        exact pair_refused signs next_clean next_some tail
      rw [shape,blank_line signs here.1,blank_pair signs apart,own]
      simp only [Option.map_some,join,List.length_append,List.length_cons]
      congr 1
      omega

end AgentSideCar.Pairs
