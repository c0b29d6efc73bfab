import AgentSideCar.Library.Words
import Mathlib.Data.List.Chain

namespace AgentSideCar.Points

-- A text is its code points; a lone surrogate is one too.
abbrev Text := List Nat

def lit (s : String) : Text := s.toList.map Char.toNat

def isSpace (c : Nat) : Bool :=
  (9 ≤ c && c ≤ 13) || (28 ≤ c && c ≤ 32) || c = 0x85 || c = 0xA0 || c = 0x1680 || (0x2000 ≤ c && c ≤ 0x200A) ||
    c = 0x2028 || c = 0x2029 || c = 0x202F || c = 0x205F || c = 0x3000

def blank : Nat := 32

def split (t : Text) : List Text := Words.words isSpace [] t

def join (words : List Text) : Text := Words.join blank words

theorem split_solid (t : Text) : ∀ w ∈ split t, w ≠ [] ∧ ∀ c ∈ w, isSpace c = false := Words.words_solid (by simp) t

theorem split_join (words : List Text) (fits : ∀ w ∈ words, w ≠ [] ∧ ∀ c ∈ w, isSpace c = false) :
    split (join words) = words := Words.words_join rfl words fits

-- No blank at either end, and no two side by side.
structure Tidy (t : Text) : Prop where
  first : ∀ c, t.head? = some c → isSpace c = false
  last : ∀ c, t.getLast? = some c → isSpace c = false
  apart : t.IsChain fun a b => isSpace a = false ∨ isSpace b = false

theorem solid_tidy (solid : ∀ c ∈ word, isSpace c = false) : Tidy word := by
  refine ⟨fun c first => solid c (List.mem_of_mem_head? first),fun c last => solid c (List.mem_of_mem_getLast? last),?_⟩
  induction word with
  | nil => exact .nil
  | cons c rest ih =>
    have later := ih fun d inside => solid d (List.mem_cons_of_mem _ inside)
    cases rest with
    | nil => exact .singleton c
    | cons d rest => exact .cons_cons (.inl (solid c List.mem_cons_self)) later

theorem word_tidy (solid : ∀ c ∈ word, isSpace c = false) (t : Text) :
    Tidy (word ++ blank :: t) ↔ word ≠ [] ∧ t ≠ [] ∧ Tidy t := by
  have space : isSpace blank = true := rfl
  constructor
  · intro tidy
    have some' : word ≠ [] := by
      rintro rfl
      cases (tidy.first blank rfl).symm.trans space
    have more : t ≠ [] := by
      rintro rfl
      cases (tidy.last blank (by simp)).symm.trans space
    have chain := (List.isChain_append.mp tidy.apart).2.1
    obtain ⟨c,rest,rfl⟩ := List.exists_cons_of_ne_nil more
    refine ⟨some',more,?_,?_,?_⟩
    · intro d first
      cases first
      exact (List.isChain_cons_cons.mp chain).1.resolve_left (by simp [space])
    · intro d last
      refine tidy.last d ?_
      rw [List.getLast?_append,List.getLast?_cons_cons,last]
      rfl
    · exact (List.isChain_cons_cons.mp chain).2
  · rintro ⟨some',more,tidy⟩
    obtain ⟨c,rest,rfl⟩ := List.exists_cons_of_ne_nil more
    refine ⟨?_,?_,?_⟩
    · intro d first
      obtain ⟨e,later,rfl⟩ := List.exists_cons_of_ne_nil some'
      cases first
      exact solid d List.mem_cons_self
    · intro d last
      rw [List.getLast?_append,List.getLast?_cons_cons] at last
      refine tidy.last d ?_
      cases ends : (c :: rest).getLast? with
      | none => simp at ends
      | some e =>
        rw [ends] at last
        exact last
    · refine List.isChain_append.mpr ⟨(solid_tidy solid).apart,?_,?_⟩
      · exact .cons_cons (.inr (tidy.first c rfl)) tidy.apart
      · intro d last _ _
        exact .inl (solid d (List.mem_of_mem_getLast? last))

theorem join_tidy (words : List Text) (solid : ∀ w ∈ words, ∀ c ∈ w, isSpace c = false) :
    Tidy (join words) ↔ words.length ≤ 1 ∨ ∀ w ∈ words, w ≠ [] := by
  induction words with
  | nil => exact ⟨fun _ => .inl (Nat.zero_le _),fun _ => ⟨nofun,nofun,.nil⟩⟩
  | cons word rest ih =>
    have own := solid word List.mem_cons_self
    have later := ih fun w inside => solid w (List.mem_cons_of_mem _ inside)
    cases rest with
    | nil => exact ⟨fun _ => .inl le_rfl,fun _ => solid_tidy own⟩
    | cons next rest =>
      have shape : join (word :: next :: rest) = word ++ blank :: join (next :: rest) := rfl
      have many : ¬ (word :: next :: rest).length ≤ 1 := by simp
      have filled : join (next :: rest) ≠ [] ∧ ((next :: rest).length ≤ 1 ∨ ∀ w ∈ next :: rest, w ≠ []) ↔
          ∀ w ∈ next :: rest, w ≠ [] := by
        cases rest with
        | nil => simp [join,Words.join]
        | cons third rest =>
          have more : join (next :: third :: rest) ≠ [] := by simp [join,Words.join]
          have several : ¬ (next :: third :: rest).length ≤ 1 := by simp
          simp only [ne_eq,more,not_false_eq_true,true_and,several,false_or]
      rw [shape,word_tidy own,later,filled,or_iff_right many]
      exact (List.forall_mem_cons (p := (· ≠ []))).symm

theorem tidy_words (tidy : Tidy t) (single : ∀ c ∈ t, isSpace c = true → c = blank) :
    ∃ words, t = join words ∧ ∀ w ∈ words, w ≠ [] ∧ ∀ c ∈ w, isSpace c = false := by
  induction size : t.length using Nat.strong_induction_on generalizing t with
  | _ size ih =>
    have solid : ∀ c ∈ t.takeWhile (!isSpace ·), isSpace c = false := fun c inside => by simpa using List.mem_takeWhile_imp inside
    have whole : t.takeWhile (!isSpace ·) ++ t.dropWhile (!isSpace ·) = t := List.takeWhile_append_dropWhile
    generalize t.takeWhile (!isSpace ·) = word at solid whole
    cases rest : t.dropWhile (!isSpace ·) with
    | nil =>
      rw [rest,List.append_nil] at whole
      subst whole
      cases word with
      | nil => exact ⟨[],rfl,List.forall_mem_nil _⟩
      | cons c word => exact ⟨[c :: word],rfl,fun w inside => List.mem_singleton.mp inside ▸ ⟨List.cons_ne_nil _ _,solid⟩⟩
    | cons c later =>
      have space : isSpace c = true := by
        have first := List.head?_dropWhile_not (!isSpace ·) t
        rw [rest] at first
        simpa using first
      rw [rest] at whole
      cases single c (whole ▸ List.mem_append_right _ List.mem_cons_self) space
      obtain ⟨some',more,below⟩ := (word_tidy solid later).mp (whole ▸ tidy)
      have longer := congrArg List.length whole
      rw [List.length_append,List.length_cons] at longer
      obtain ⟨words,rfl,fits⟩ := ih later.length (by omega) below
        (fun d inside => single d (whole ▸ List.mem_append_right _ (List.mem_cons_of_mem _ inside))) rfl
      refine ⟨word :: words,?_,List.forall_mem_cons.mpr ⟨⟨some',solid⟩,fits⟩⟩
      cases words with
      | nil => exact absurd rfl more
      | cons next words => exact whole.symm

theorem tidy_settled (tidy : Tidy t) (single : ∀ c ∈ t, isSpace c = true → c = blank) : join (split t) = t := by
  obtain ⟨words,rfl,fits⟩ := tidy_words tidy single
  rw [split_join words fits]

theorem join_single (words : List Text) (solid : ∀ w ∈ words, ∀ c ∈ w, isSpace c = false) :
    ∀ c ∈ join words, isSpace c = true → c = blank := by
  induction words with
  | nil => exact List.forall_mem_nil _
  | cons word rest ih =>
    have own := solid word List.mem_cons_self
    have later := ih fun w inside => solid w (List.mem_cons_of_mem _ inside)
    intro c inside space
    cases rest with
    | nil => exact absurd space (by simp [own c inside])
    | cons next rest =>
      rcases List.mem_append.mp (show c ∈ word ++ blank :: join (next :: rest) from inside) with here | there
      · exact absurd space (by simp [own c here])
      rcases List.mem_cons.mp there with same | after
      · exact same
      · exact later c after space

end AgentSideCar.Points
