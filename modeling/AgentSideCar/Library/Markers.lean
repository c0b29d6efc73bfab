import Mathlib.Data.List.Infix

namespace AgentSideCar.Markers
variable {α : Type}

-- A name between two signs that it does not hold.
structure Marker (a z : α) (word : List α) : Prop where
  shape : ∃ name, word = a :: (name ++ [z]) ∧ a ∉ name ∧ z ∉ name
  signs : a ≠ z

variable {a z : α} {word other part rest : List α}

theorem marker_nonempty (marker : Marker a z word) : word ≠ [] := by
  obtain ⟨name,own,_⟩ := marker.shape
  rw [own]
  exact List.cons_ne_nil _ _

theorem marker_head (marker : Marker a z word) : word.head? = some a := by
  obtain ⟨name,own,_⟩ := marker.shape
  rw [own]
  rfl

theorem marker_tail (marker : Marker a z word) : a ∉ word.tail := by
  obtain ⟨name,own,fresh,_⟩ := marker.shape
  rw [own,List.tail_cons,List.mem_append,List.mem_singleton]
  exact not_or.mpr ⟨fresh,marker.signs⟩

theorem marker_begins (marker : Marker a z word) (another : Marker a z other) (begins : word <+: other) : word = other := by
  obtain ⟨name,own,_⟩ := marker.shape
  obtain ⟨longer,second,_,fresh⟩ := another.shape
  rw [own,second] at begins ⊢
  have inner := (List.cons_prefix_cons.mp begins).2
  have short : ¬ name.length + 1 ≤ longer.length := by
    intro room
    have within : name ++ [z] <+: longer := by
      refine List.prefix_of_prefix_length_le inner (List.prefix_append longer [z]) ?_
      simpa using room
    exact fresh (within.subset (by simp))
  have most := inner.length_le
  simp only [List.length_append,List.length_singleton] at most
  have same := inner.eq_of_length (by simp only [List.length_append,List.length_singleton]; omega)
  rw [same]

theorem head_refused (marker : Marker a z word) (other : ∀ c, rest.head? = some c → c ≠ a) : ¬ word <+: rest := by
  intro begins
  obtain ⟨name,own,_⟩ := marker.shape
  obtain ⟨more,same⟩ := begins
  rw [own] at same
  exact other a (by rw [← same]; rfl) rfl

theorem marker_apart (marker : Marker a z word) (another : Marker a z other) {text : List α} (here : word <+: text.drop i)
    (less : i < j) (near : j < i + word.length) : ¬ other <+: text.drop j := by
  intro there
  have sign : (text.drop j).head? = some a := by
    obtain ⟨more,own⟩ := there
    rw [← own,List.head?_append,marker_head another]
    rfl
  obtain ⟨more,own⟩ := here
  have drops : text.drop j = word.drop (j - i) ++ more := by
    rw [← List.drop_append_of_le_length (by omega),own,List.drop_drop,show i + (j - i) = j by omega]
  have some' : word.drop (j - i) ≠ [] := by
    rw [Ne,List.drop_eq_nil_iff]
    omega
  rw [drops,List.head?_append_of_ne_nil _ some'] at sign
  refine marker_tail marker ?_
  rw [← List.drop_one]
  refine List.drop_subset_drop_left word (show 1 ≤ j - i by omega) ?_
  exact List.mem_of_mem_head? sign

theorem map_letters {f : α → α} (same : ∀ c ∈ word, ∀ x, f x = c ↔ x = c) {text : List α} : text.map f = word ↔ text = word := by
  induction word generalizing text with
  | nil => exact List.map_eq_nil_iff
  | cons c word ih =>
    cases text with
    | nil => simp
    | cons x text =>
      rw [List.map_cons,List.cons.injEq,List.cons.injEq,same c List.mem_cons_self x,ih fun d inside => same d (List.mem_cons_of_mem c inside)]

theorem prefix_map {f : α → α} (same : ∀ c ∈ word, ∀ x, f x = c ↔ x = c) (text : List α) : word <+: text.map f ↔ word <+: text := by
  rw [List.prefix_iff_eq_take,List.prefix_iff_eq_take,← List.map_take,eq_comm,map_letters same,eq_comm]

-- How many places from a start to before a stop are such.
def count (p : Nat → Bool) (start stop : Nat) : Nat := ((List.range' start (stop - start)).filter p).length

theorem count_split (p : Nat → Bool) (first : a' ≤ b') (second : b' ≤ c') : count p a' c' = count p a' b' + count p b' c' := by
  have parts : List.range' a' (b' - a') ++ List.range' b' (c' - b') = List.range' a' (c' - a') := by
    have := List.range'_append_1 (s := a') (m := b' - a') (n := c' - b')
    rwa [show a' + (b' - a') = b' by omega,show b' - a' + (c' - b') = c' - a' by omega] at this
  rw [count,count,count,← parts,List.filter_append,List.length_append]

theorem count_none {p : Nat → Bool} (none : ∀ i, start ≤ i → i < stop → p i = false) : count p start stop = 0 := by
  rw [count,List.length_eq_zero_iff,List.filter_eq_nil_iff]
  intro i inside
  have := List.mem_range'_1.mp inside
  simp [none i this.1 (by omega)]

theorem count_one {p : Nat → Bool} (here : p start = true) (less : start < stop) (none : ∀ i, start < i → i < stop → p i = false) :
    count p start stop = 1 := by
  rw [count_split p (Nat.le_succ start) less,count_none none]
  simp [count,here]

variable [DecidableEq α]

def first (word : List α) : List α → Option Nat
  | [] => if word = [] then some 0 else none
  | x :: rest => if word <+: x :: rest then some 0 else (first word rest).map (· + 1)

-- The first place of a word from a start on.
def find (word text : List α) (start : Nat) : Option Nat := (first word (text.drop start)).map (start + ·)

theorem first_here (begins : word <+: rest) : first word rest = some 0 := by
  cases rest with
  | nil => exact if_pos (List.prefix_nil.mp begins)
  | cons x rest => exact if_pos begins

theorem first_later (apart : ¬ word <+: x :: rest) : first word (x :: rest) = (first word rest).map (· + 1) := if_neg apart

theorem first_found {text : List α} (found : first word text = some k) :
    word <+: text.drop k ∧ ∀ j < k, ¬ word <+: text.drop j := by
  induction text generalizing k with
  | nil =>
    unfold first at found
    split at found
    · rename_i empty
      cases found
      exact ⟨empty ▸ List.nil_prefix,fun j less => absurd less (Nat.not_lt_zero j)⟩
    · cases found
  | cons x text ih =>
    by_cases here : word <+: x :: text
    · rw [first_here here] at found
      cases found
      exact ⟨here,fun j less => absurd less (Nat.not_lt_zero j)⟩
    · rw [first_later here] at found
      obtain ⟨j,later,rfl⟩ := Option.map_eq_some_iff.mp found
      obtain ⟨begins,before⟩ := ih later
      refine ⟨begins,?_⟩
      intro i less
      cases i with
      | zero => exact here
      | succ i => exact before i (Nat.lt_of_succ_lt_succ less)

theorem first_absent {text : List α} (absent : first word text = none) (j : Nat) : ¬ word <+: text.drop j := by
  induction text generalizing j with
  | nil =>
    intro begins
    rw [List.drop_nil] at begins
    rw [first_here begins] at absent
    cases absent
  | cons x text ih =>
    by_cases here : word <+: x :: text
    · rw [first_here here] at absent
      cases absent
    · rw [first_later here,Option.map_eq_none_iff] at absent
      cases j with
      | zero => exact here
      | succ j => exact ih absent j

theorem first_some {text : List α} (occurs : word <:+: text) : ∃ k, first word text = some k := by
  cases found : first word text with
  | some k => exact ⟨k,rfl⟩
  | none =>
    obtain ⟨before,after,own⟩ := occurs
    refine absurd ?_ (first_absent found before.length)
    rw [← own,List.append_assoc,List.drop_left]
    exact List.prefix_append word after

theorem first_within (marker : Marker a z word) (fresh : a ∉ part) (rest : List α) :
    first word (part ++ rest) = (first word rest).map (· + part.length) := by
  induction part with
  | nil => simp
  | cons x part ih =>
    have apart : ¬ word <+: x :: (part ++ rest) := by
      refine head_refused marker ?_
      intro c begins
      cases begins
      exact fun same => fresh (same ▸ List.mem_cons_self)
    rw [List.cons_append,first_later apart,ih (fun inside => fresh (List.mem_cons_of_mem x inside)),Option.map_map]
    rfl

theorem first_other (marker : Marker a z word) (another : Marker a z other) (apart : word ≠ other) (rest : List α) :
    first word (other ++ rest) = (first word rest).map (· + other.length) := by
  have inner := marker_tail another
  obtain ⟨c,tail,own⟩ := List.exists_cons_of_ne_nil (marker_nonempty another)
  rw [own,List.tail_cons] at inner
  have begin' : ¬ word <+: other ++ rest := by
    intro begins
    rcases List.prefix_or_prefix_of_prefix begins (List.prefix_append other rest) with short | long
    · exact apart (marker_begins marker another short)
    · exact apart (marker_begins another marker long).symm
  rw [own,List.cons_append] at begin' ⊢
  rw [first_later begin',first_within marker inner,Option.map_map]
  rfl

theorem first_over (marker : Marker a z word) (free : ¬ word <:+: part) (next : ∀ c, rest.head? = some c → c = a) :
    first word (part ++ rest) = (first word rest).map (· + part.length) := by
  induction part with
  | nil => simp
  | cons x part ih =>
    have apart : ¬ word <+: x :: (part ++ rest) := by
      intro begins
      rcases List.prefix_or_prefix_of_prefix begins (List.prefix_append (x :: part) rest) with short | long
      · exact free short.isInfix
      · obtain ⟨more,own⟩ := long
        rw [← own,← List.cons_append] at begins
        have onward := (List.prefix_append_right_inj (x :: part)).mp begins
        cases more with
        | nil =>
          rw [List.append_nil] at own
          exact free (own ▸ List.infix_rfl)
        | cons c more =>
          obtain ⟨later,same⟩ := onward
          have sign := next c (by rw [← same]; rfl)
          refine marker_tail marker ?_
          rw [← own,List.cons_append,List.tail_cons,sign]
          exact List.mem_append_right _ List.mem_cons_self
    rw [List.cons_append,first_later apart,ih (fun occurs => free (List.infix_cons occurs)),Option.map_map]
    rfl

theorem first_map {f : α → α} {text : List α} (same : ∀ c ∈ word, ∀ x, f x = c ↔ x = c) : first word (text.map f) = first word text := by
  induction text with
  | nil => rfl
  | cons x text ih =>
    have here := prefix_map same (x :: text)
    rw [List.map_cons] at here ⊢
    by_cases stands : word <+: x :: text
    · rw [first_here stands,first_here (here.mpr stands)]
    · rw [first_later stands,first_later (mt here.mp stands),ih]

section Finds
variable {text : List α} {start : Nat}

theorem find_found (some' : word ≠ []) (found : find word text start = some k) :
    start ≤ k ∧ k + word.length ≤ text.length ∧ word <+: text.drop k ∧ ∀ j, start ≤ j → j < k → ¬ word <+: text.drop j := by
  obtain ⟨d,own,rfl⟩ := Option.map_eq_some_iff.mp found
  obtain ⟨begins,before⟩ := first_found own
  rw [List.drop_drop] at begins
  have room := begins.length_le
  have more := List.length_pos_of_ne_nil some'
  rw [List.length_drop] at room
  refine ⟨Nat.le_add_right start d,by omega,begins,?_⟩
  intro j least less
  have earlier := before (j - start) (by omega)
  rwa [List.drop_drop,Nat.add_sub_cancel' least] at earlier

theorem find_absent (absent : find word text start = none) (j : Nat) (least : start ≤ j) : ¬ word <+: text.drop j := by
  have none := first_absent (Option.map_eq_none_iff.mp absent) (j - start)
  rwa [List.drop_drop,Nat.add_sub_cancel' least] at none

end Finds

variable {before : List α}

theorem find_here (word before rest : List α) : find word (before ++ (word ++ rest)) before.length = some before.length := by
  rw [find,List.drop_left,first_here (List.prefix_append word rest)]
  rfl

theorem find_beyond (before : List α) (skips : first word (part ++ rest) = (first word rest).map (· + part.length)) :
    find word (before ++ (part ++ rest)) before.length = find word (before ++ (part ++ rest)) (before.length + part.length) := by
  have onward : (before ++ (part ++ rest)).drop (before.length + part.length) = rest := by
    rw [← List.append_assoc,← List.length_append,List.drop_left]
  rw [find,find,List.drop_left,onward,skips,Option.map_map]
  congr 1
  funext d
  simp only [Function.comp]
  omega

end AgentSideCar.Markers
