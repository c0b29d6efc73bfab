import Mathlib.Data.List.Chain
import Mathlib.Data.List.Infix
import Mathlib.Data.List.TakeWhile

namespace AgentSideCar.Pattern
variable {α : Type}

-- A class of characters: so many of them, or at least so many.
structure Atom (α : Type) where
  fits : α → Bool
  least : Nat
  more : Bool

-- The words of atoms one after another, and of a pattern's alternatives.
inductive Word : List (Atom α) → List α → Prop where
  | nil : Word [] []
  | cons {atom : Atom α} {atoms : List (Atom α)} {s t : List α} (all : ∀ c ∈ s, atom.fits c = true) (enough : atom.least ≤ s.length) (exact : atom.more = false → s.length = atom.least)
      (rest : Word atoms t) : Word (atom :: atoms) (s ++ t)

abbrev Alternatives (α : Type) := List (List (Atom α))

def Matches (p : Alternatives α) (s : List α) : Prop := ∃ atoms ∈ p, Word atoms s

-- How many characters of a text an atom may take, the most first.
def Atom.lengths (atom : Atom α) (t : List α) : List Nat :=
  let run := (t.takeWhile atom.fits).length
  let most := if atom.more then run else min atom.least run
  (List.range (most + 1 - atom.least)).map (most - ·)

def matchAtoms : List (Atom α) → List α → Option Nat
  | [],_ => some 0
  | atom :: atoms,t => (atom.lengths t).findSome? fun n => (matchAtoms atoms (t.drop n)).map (n + ·)

def matchLength (p : Alternatives α) (t : List α) : Option Nat := p.findSome? (matchAtoms · t)

-- Matches are taken from the left; what is left of one is skipped.
def sweep (p : Alternatives α) (new : List α) : Nat → List α → List α
  | _,[] => []
  | skip + 1,_ :: rest => sweep p new skip rest
  | 0,c :: rest =>
    match matchLength p (c :: rest) with
    | some (m + 1) => new ++ sweep p new m rest
    | _ => c :: sweep p new 0 rest

def sub (p : Alternatives α) (new text : List α) : List α := sweep p new 0 text

-- No part of a text is a match.
def Free (p : Alternatives α) (text : List α) : Prop := ∀ s, s <:+: text → ¬ Matches p s

-- A text and what is left of it: characters where no match begins, and matches replaced.
inductive Replaced (p : Alternatives α) (new : List α) : List α → List α → Prop where
  | nil : Replaced p new [] []
  | keep (free : ∀ s, s <+: c :: rest → ¬ Matches p s) (later : Replaced p new rest out) : Replaced p new (c :: rest) (c :: out)
  | swap (found : Matches p word) (later : Replaced p new rest out) : Replaced p new (word ++ rest) (new ++ out)

section Matching
variable {p : Alternatives α} {atom : Atom α} {atoms : List (Atom α)} {s t : List α}

theorem lengths_mem : n ∈ atom.lengths t ↔ atom.least ≤ n ∧ n ≤ (t.takeWhile atom.fits).length ∧ (atom.more = false → n = atom.least) := by
  simp only [Atom.lengths,List.mem_map,List.mem_range]
  cases atom.more with
  | true =>
    constructor
    · rintro ⟨k,short,rfl⟩
      simp only [if_true] at short ⊢
      exact ⟨by omega,by omega,nofun⟩
    · rintro ⟨enough,within,_⟩
      exact ⟨(t.takeWhile atom.fits).length - n,by simp only [if_true]; omega,by simp only [if_true]; omega⟩
  | false =>
    constructor
    · rintro ⟨k,short,rfl⟩
      simp only [Bool.false_eq_true,if_false] at short ⊢
      exact ⟨by omega,by omega,fun _ => by omega⟩
    · rintro ⟨_,within,exact⟩
      have same := exact rfl
      exact ⟨0,by simp only [Bool.false_eq_true,if_false]; omega,by simp only [Bool.false_eq_true,if_false]; omega⟩

theorem takeWhile_longest (all : ∀ c ∈ s, atom.fits c = true) (t : List α) : s.length ≤ ((s ++ t).takeWhile atom.fits).length := by
  rw [List.takeWhile_append_of_pos all,List.length_append]
  omega

theorem matchAtoms_sound (found : matchAtoms atoms t = some n) : n ≤ t.length ∧ Word atoms (t.take n) := by
  induction atoms generalizing t n with
  | nil =>
    cases found
    exact ⟨Nat.zero_le _,.nil⟩
  | cons atom atoms ih =>
    obtain ⟨m,inside,taken⟩ := List.exists_of_findSome?_eq_some found
    obtain ⟨k,rest,rfl⟩ := Option.map_eq_some_iff.mp taken
    obtain ⟨enough,within,exact⟩ := lengths_mem.mp inside
    obtain ⟨short,word⟩ := ih rest
    have begun : t.take m <+: t.takeWhile atom.fits :=
      List.prefix_of_prefix_length_le (List.take_prefix _ _) (List.takeWhile_prefix _) (Nat.le_trans (List.length_take_le _ _) within)
    have long : m ≤ t.length := Nat.le_trans within (List.takeWhile_prefix _).length_le
    have sized : (t.take m).length = m := List.length_take_of_le long
    rw [List.length_drop] at short
    refine ⟨by omega,?_⟩
    rw [List.take_add]
    exact .cons (fun c among => List.mem_takeWhile_imp (begun.subset among)) (by rw [sized]; exact enough)
      (fun only => by rw [sized]; exact exact only) word

theorem matchAtoms_complete (word : Word atoms s) (t : List α) : matchAtoms atoms (s ++ t) ≠ none := by
  induction word with
  | nil => exact nofun
  | @cons atom atoms first later all enough exact rest ih =>
    rw [matchAtoms,ne_eq,List.findSome?_eq_none_iff]
    intro none
    have inside : first.length ∈ atom.lengths (first ++ later ++ t) := by
      refine lengths_mem.mpr ⟨enough,?_,exact⟩
      rw [List.append_assoc]
      exact takeWhile_longest all _
    have here := none first.length inside
    rw [List.append_assoc,List.drop_left,Option.map_eq_none_iff] at here
    exact ih here

theorem matchLength_sound (found : matchLength p t = some n) : n ≤ t.length ∧ Matches p (t.take n) := by
  obtain ⟨atoms,inside,matched⟩ := List.exists_of_findSome?_eq_some found
  obtain ⟨short,word⟩ := matchAtoms_sound matched
  exact ⟨short,atoms,inside,word⟩

theorem matchLength_complete (matched : Matches p s) (begins : s <+: t) : matchLength p t ≠ none := by
  obtain ⟨atoms,inside,word⟩ := matched
  obtain ⟨rest,rfl⟩ := begins
  rw [matchLength,ne_eq,List.findSome?_eq_none_iff]
  exact fun none => matchAtoms_complete word rest (none atoms inside)

theorem sweep_skip (new : List α) (skip : Nat) (t : List α) : sweep p new skip t = sweep p new 0 (t.drop skip) := by
  induction t generalizing skip with
  | nil => cases skip <;> rfl
  | cons c rest ih =>
    cases skip with
    | zero => rfl
    | succ skip => exact ih skip

theorem sub_replaced (some' : ¬ Matches p []) (new text : List α) : Replaced p new text (sub p new text) := by
  induction size : text.length using Nat.strong_induction_on generalizing text with
  | _ size ih =>
    cases text with
    | nil => exact .nil
    | cons c rest =>
      rw [List.length_cons] at size
      rw [sub,sweep]
      cases found : matchLength p (c :: rest) with
      | none =>
        refine .keep (fun s begins matched => matchLength_complete matched begins found) ?_
        exact ih rest.length (by omega) rest rfl
      | some n =>
        obtain ⟨short,matched⟩ := matchLength_sound found
        cases n with
        | zero => exact absurd matched some'
        | succ m =>
          rw [List.take_succ_cons] at matched
          have whole : c :: rest = (c :: rest.take m) ++ rest.drop m := by rw [List.cons_append,List.take_append_drop]
          dsimp only
          rw [sweep_skip,whole]
          refine .swap matched (ih (rest.drop m).length ?_ _ rfl)
          rw [List.length_drop]
          omega

theorem free_within (free : Free p text) (inside : s <:+: text) : Free p s := fun part within => free part (within.trans inside)

theorem sub_free (new : List α) (free : Free p text) : sub p new text = text := by
  unfold sub
  induction text with
  | nil => rfl
  | cons c rest ih =>
    have none : matchLength p (c :: rest) = none := by
      by_contra some'
      obtain ⟨n,found⟩ := Option.ne_none_iff_exists'.mp some'
      exact free _ (List.take_prefix _ _).isInfix (matchLength_sound found).2
    rw [sweep,none]
    dsimp only
    rw [ih fun s inside => free s (inside.trans (List.suffix_cons c rest).isInfix)]

end Matching

section Words
variable {atom : Atom α} {atoms lead tail : List (Atom α)} {s : List α} {mark : α}

-- A character of a class, and so many or more of one.
def one (fits : α → Bool) : Atom α := ⟨fits,1,false⟩
def many (fits : α → Bool) (least : Nat) : Atom α := ⟨fits,least,true⟩

theorem word_fits (word : Word atoms s) : ∀ c ∈ s, ∃ atom ∈ atoms, atom.fits c = true := by
  induction word with
  | nil => exact List.forall_mem_nil _
  | cons all _ _ _ ih =>
    intro c inside
    rcases List.mem_append.mp inside with here | later
    · exact ⟨_,List.mem_cons_self,all c here⟩
    · obtain ⟨atom,among,fits⟩ := ih c later
      exact ⟨atom,List.mem_cons_of_mem _ among,fits⟩

theorem word_avoids (word : Word atoms s) (avoids : ∀ atom ∈ atoms, atom.fits mark = false) : mark ∉ s := by
  intro inside
  obtain ⟨atom,among,fits⟩ := word_fits word mark inside
  rw [avoids atom among] at fits
  cases fits

-- A pattern has no use for these characters.
def Clear (p : Alternatives α) (marks : List α) : Prop := ∀ mark ∈ marks, ∀ atoms ∈ p, ∀ atom ∈ atoms, atom.fits mark = false

instance (p : Alternatives α) (marks : List α) : Decidable (Clear p marks) :=
  inferInstanceAs (Decidable (∀ mark ∈ marks, ∀ atoms ∈ p, ∀ atom ∈ atoms, atom.fits mark = false))

theorem clear_avoids {p : Alternatives α} {marks : List α} (clear : Clear p marks) (among : mark ∈ marks) (matched : Matches p s) : mark ∉ s := by
  obtain ⟨atoms,inside,word⟩ := matched
  exact word_avoids word (clear mark among atoms inside)

theorem word_has (word : Word atoms s) (inside : atom ∈ atoms) (some' : 0 < atom.least) : ∃ c ∈ s, atom.fits c = true := by
  induction word with
  | nil => cases inside
  | @cons first atoms s t all enough _ _ ih =>
    rcases List.mem_cons.mp inside with rfl | later
    · obtain ⟨c,here⟩ := List.exists_mem_of_length_pos (Nat.lt_of_lt_of_le some' enough)
      exact ⟨c,List.mem_append_left _ here,all c here⟩
    · obtain ⟨c,there,fits⟩ := ih later
      exact ⟨c,List.mem_append_right _ there,fits⟩

theorem matches_some {p : Alternatives α} (needs : ∀ atoms ∈ p, ∃ atom ∈ atoms, 0 < atom.least) : ¬ Matches p [] := by
  rintro ⟨atoms,inside,word⟩
  obtain ⟨atom,among,some'⟩ := needs atoms inside
  obtain ⟨c,here,_⟩ := word_has word among some'
  cases here

theorem word_append (word : Word (lead ++ tail) s) : ∃ a b, s = a ++ b ∧ Word lead a ∧ Word tail b := by
  induction lead generalizing s with
  | nil => exact ⟨[],s,rfl,.nil,word⟩
  | cons atom lead ih =>
    cases word with
    | @cons _ _ first later all enough exact rest =>
      obtain ⟨a,b,rfl,front,back⟩ := ih rest
      exact ⟨first ++ a,b,(List.append_assoc _ _ _).symm,.cons all enough exact front,back⟩

theorem append_word (front : Word lead a) (back : Word tail b) : Word (lead ++ tail) (a ++ b) := by
  induction front with
  | nil => exact back
  | cons all enough exact _ ih =>
    rw [List.append_assoc,List.cons_append]
    exact .cons all enough exact ih

theorem word_many (fits : α → Bool) (least : Nat) : Word [many fits least] s ↔ least ≤ s.length ∧ ∀ c ∈ s, fits c = true := by
  constructor
  · intro word
    cases word with
    | cons all enough _ rest =>
      cases rest with
      | nil => exact ⟨by rwa [List.append_nil],by rwa [List.append_nil]⟩
  · rintro ⟨enough,all⟩
    rw [← List.append_nil s]
    exact .cons all enough nofun .nil

end Words

section Replacing
variable {p q : Alternatives α} {new text out s : List α} {mark : α}

theorem replaced_begins (replaced : Replaced p new text out) (marked : new.head? = some mark) (begins : s <+: out) (clear : mark ∉ s) :
    s <+: text := by
  induction replaced generalizing s with
  | nil => exact begins
  | keep _ _ ih =>
    cases s with
    | nil => exact List.nil_prefix
    | cons c s =>
      obtain ⟨rfl,later⟩ := List.cons_prefix_cons.mp begins
      exact List.cons_prefix_cons.mpr ⟨rfl,ih later fun inside => clear (List.mem_cons_of_mem _ inside)⟩
  | swap _ _ _ =>
    cases s with
    | nil => exact List.nil_prefix
    | cons c s =>
      obtain ⟨first,new,rfl⟩ : ∃ c rest, new = c :: rest := by cases new <;> simp at marked ⊢
      cases marked
      obtain ⟨rfl,_⟩ := List.cons_prefix_cons.mp begins
      exact absurd List.mem_cons_self clear

theorem replaced_further (replaced : Replaced p new text out) (some' : ¬ Matches p []) (marked : new.head? = some mark)
    (begins : s ++ [mark] <+: out) (clear : mark ∉ s) : ∃ c, s ++ [c] <+: text ∧ (c = mark ∨ ∃ more, Matches p (c :: more)) := by
  induction replaced generalizing s with
  | nil => simp at begins
  | keep _ _ ih =>
    cases s with
    | nil =>
      obtain ⟨rfl,_⟩ := List.cons_prefix_cons.mp begins
      exact ⟨_,List.cons_prefix_cons.mpr ⟨rfl,List.nil_prefix⟩,.inl rfl⟩
    | cons c s =>
      obtain ⟨rfl,later⟩ := List.cons_prefix_cons.mp begins
      obtain ⟨d,there,kind⟩ := ih later fun inside => clear (List.mem_cons_of_mem _ inside)
      exact ⟨d,List.cons_prefix_cons.mpr ⟨rfl,there⟩,kind⟩
  | @swap word rest out found _ _ =>
    cases s with
    | nil =>
      cases word with
      | nil => exact absurd found some'
      | cons c more => exact ⟨c,List.cons_prefix_cons.mpr ⟨rfl,List.nil_prefix⟩,.inr ⟨more,found⟩⟩
    | cons c s =>
      obtain ⟨first,new,rfl⟩ : ∃ c rest, new = c :: rest := by cases new <;> simp at marked ⊢
      cases marked
      obtain ⟨rfl,_⟩ := List.cons_prefix_cons.mp begins
      exact absurd List.mem_cons_self clear

-- No match begins within a new text, whatever follows it.
def Inert (p : Alternatives α) (new : List α) : Prop := ∀ part rest s, part ≠ [] → part <:+ new → s <+: part ++ rest → ¬ Matches p s

theorem inert_passed (inert : Inert p new) (matched : Matches p s) (part : List α) (ends : part <:+ new) (occurs : s <:+: part ++ rest) :
    s <:+: rest := by
  induction part with
  | nil => exact occurs
  | cons c part ih =>
    rcases List.infix_cons_iff.mp occurs with begins | within
    · exact absurd matched (inert (c :: part) rest s (List.cons_ne_nil _ _) ends begins)
    · exact ih ((List.suffix_cons c part).trans ends) within

-- A new text is inert where every match has a beginning that avoids its last character and
-- needs one it does not have.
theorem inert_needed (whole : new = early ++ [stop]) (needed : ∀ s, Matches p s → ∃ a b, s = a ++ b ∧ stop ∉ a ∧ ∃ c ∈ a, c ∉ new) :
    Inert p new := by
  intro part rest s some' ends begins matched
  obtain ⟨a,b,rfl,avoids,c,inside,lacks⟩ := needed s matched
  have stopped : stop ∈ part := by
    rw [whole] at ends
    rcases List.suffix_concat_iff.mp ends with none | ⟨front,rfl,_⟩
    · exact absurd none some'
    · exact List.mem_append_right _ List.mem_cons_self
  have front : a <+: part ++ rest := (List.prefix_append a b).trans begins
  rcases List.prefix_or_prefix_of_prefix front (List.prefix_append part rest) with short | long
  · exact lacks (ends.subset (short.subset inside))
  · exact avoids (long.subset stopped)

theorem word_needed (avoids : ∀ atom ∈ lead, atom.fits stop = false) (inside : atom ∈ lead) (some' : 0 < atom.least)
    (lacks : ∀ c, atom.fits c = true → c ∉ new) (word : Word (lead ++ tail) s) : ∃ a b, s = a ++ b ∧ stop ∉ a ∧ ∃ c ∈ a, c ∉ new := by
  obtain ⟨a,b,rfl,front,_⟩ := word_append word
  obtain ⟨c,here,fits⟩ := word_has front inside some'
  exact ⟨a,b,rfl,word_avoids front avoids,c,here,lacks c fits⟩

theorem marked_inert [DecidableEq α] (whole : new = early ++ [stop]) (marked : ∀ atoms ∈ p, ∃ lead tail mark, atoms = lead ++ tail ∧
    (∀ atom ∈ lead, atom.fits stop = false) ∧ one (· = mark) ∈ lead ∧ mark ∉ new) : Inert p new := by
  refine inert_needed whole ?_
  rintro s ⟨atoms,inside,word⟩
  obtain ⟨lead,tail,mark,rfl,avoids,among,lacks⟩ := marked atoms inside
  exact word_needed avoids among Nat.one_pos (fun c same => of_decide_eq_true same ▸ lacks) word

-- A match that goes on into a new text would have gone on over what stood there.
def Resumes (p : Alternatives α) (mark : α) : Prop := ∀ a b c, Matches p (a ++ mark :: b) → (c = mark ∨ ∃ more, Matches p (c :: more)) →
  Matches p (a ++ [c])

theorem resumes_avoided (avoids : ∀ s, Matches p s → mark ∉ s) : Resumes p mark := fun _ _ _ matched _ =>
  absurd (List.mem_append_right _ List.mem_cons_self) (avoids _ matched)

theorem word_resumes (fits : α → Bool) (avoids : ∀ atom ∈ lead, atom.fits mark = false) (word : Word (lead ++ [many fits 1]) (a ++ mark :: b))
    (taken : fits c = true) : Word (lead ++ [many fits 1]) (a ++ [c]) := by
  obtain ⟨x,y,whole,front,back⟩ := word_append word
  have clear : mark ∉ x := word_avoids front avoids
  obtain ⟨late,rfl,rfl⟩ : ∃ late, a = x ++ late ∧ y = late ++ mark :: b := by
    rcases List.append_eq_append_iff.mp whole with ⟨late,rfl,same⟩ | ⟨late,rfl,same⟩
    · cases late with
      | nil => exact ⟨[],by simp,by simpa using same.symm⟩
      | cons d late =>
        obtain ⟨rfl,_⟩ := List.cons.inj same
        exact absurd (List.mem_append_right _ List.mem_cons_self) clear
    · exact ⟨late,rfl,same⟩
  obtain ⟨_,all⟩ := (word_many fits 1).mp back
  rw [List.append_assoc]
  refine append_word front ((word_many fits 1).mpr ⟨by simp,fun d inside => ?_⟩)
  rcases List.mem_append.mp inside with here | last
  · exact all d (List.mem_append_left _ here)
  · exact List.mem_singleton.mp last ▸ taken

theorem replaced_mem (replaced : Replaced p new text out) (inside : c ∈ out) : c ∈ text ∨ c ∈ new := by
  induction replaced with
  | nil => cases inside
  | keep _ _ ih =>
    rcases List.mem_cons.mp inside with rfl | later
    · exact .inl List.mem_cons_self
    · exact (ih later).imp_left (List.mem_cons_of_mem _)
  | swap _ _ ih =>
    rcases List.mem_append.mp inside with fresh | later
    · exact .inr fresh
    · exact (ih later).imp_left (List.mem_append_right _)

theorem replaced_free (replaced : Replaced p new text out) (some' : ¬ Matches p []) (marked : new.head? = some mark)
    (inert : Inert p new) (resumes : Resumes p mark) : Free p out := by
  induction replaced with
  | nil =>
    intro s inside matched
    exact some' (List.infix_nil.mp inside ▸ matched)
  | @keep c rest out free later ih =>
    intro s inside matched
    rcases List.infix_cons_iff.mp inside with begins | within
    · have whole : Replaced p new (c :: rest) (c :: out) := .keep free later
      by_cases holds : mark ∈ s
      · obtain ⟨a,b,rfl,clear⟩ := List.eq_append_cons_of_mem holds
        have reached : a ++ [mark] <+: c :: out := by
          refine List.IsPrefix.trans ?_ begins
          exact ⟨b,by simp⟩
        obtain ⟨d,there,kind⟩ := replaced_further whole some' marked reached clear
        exact free _ there (resumes a b d matched kind)
      · exact free s (replaced_begins whole marked begins holds) matched
    · exact ih s within matched
  | swap _ _ ih =>
    intro s inside matched
    exact ih s (inert_passed inert matched _ (List.suffix_refl _) inside) matched

theorem replaced_keeps (replaced : Replaced q new text out) (marked : new.head? = some mark) (inert : Inert p new)
    (avoids : ∀ s, Matches p s → mark ∉ s) (free : Free p text) : Free p out := by
  have begun : ∀ s, s <+: out → ¬ Matches p s := fun s begins matched =>
    free s (replaced_begins replaced marked begins (avoids s matched)).isInfix matched
  induction replaced with
  | nil => exact free
  | @keep c rest out unmatched later ih =>
    intro s inside matched
    rcases List.infix_cons_iff.mp inside with begins | within
    · exact begun s begins matched
    · have below : Free p rest := fun s inside => free s (inside.trans (List.suffix_cons c rest).isInfix)
      refine ih below (fun s begins matched => ?_) s within matched
      exact below s (replaced_begins later marked begins (avoids s matched)).isInfix matched
  | @swap word rest out found later ih =>
    intro s inside matched
    have below : Free p rest := fun s inside => free s (inside.trans (List.suffix_append word rest).isInfix)
    refine ih below (fun s begins matched => ?_) s (inert_passed inert matched _ (List.suffix_refl _) inside) matched
    exact below s (replaced_begins later marked begins (avoids s matched)).isInfix matched

end Replacing

section Spaces
variable {p : Alternatives α} {new text out : List α} {space : α → Bool}

-- Replacing solid words by solid words leaves the blanks where they are.
structure Solid (space : α → Bool) (p : Alternatives α) (new : List α) : Prop where
  words : ∀ s, Matches p s → ∀ c ∈ s, space c = false
  fresh : ∀ c ∈ new, space c = false
  some' : new ≠ []

theorem replaced_head (solid : Solid space p new) (replaced : Replaced p new text out) (first : out.head? = some c) (blank : space c = true) :
    text.head? = some c := by
  cases replaced with
  | nil => cases first
  | keep _ _ => exact first
  | swap found later =>
    rw [List.head?_append_of_ne_nil _ solid.some'] at first
    exact absurd blank (by simp [solid.fresh c (List.mem_of_mem_head? first)])

theorem replaced_nil (solid : Solid space p new) (replaced : Replaced p new text out) (none : out = []) : text = [] := by
  cases replaced with
  | nil => rfl
  | keep _ _ => cases none
  | swap _ _ => exact absurd (List.append_eq_nil_iff.mp none).1 solid.some'

theorem replaced_last (solid : Solid space p new) (replaced : Replaced p new text out) (last : out.getLast? = some c) (blank : space c = true) :
    text.getLast? = some c := by
  induction replaced with
  | nil => cases last
  | @keep d rest out free later ih =>
    cases out with
    | nil =>
      rw [replaced_nil solid later rfl]
      exact last
    | cons e out =>
      rw [List.getLast?_cons_cons] at last
      have there := ih last
      cases rest with
      | nil => cases there
      | cons f rest => rwa [List.getLast?_cons_cons]
  | @swap word rest out found later ih =>
    cases out with
    | nil =>
      rw [List.append_nil] at last
      exact absurd blank (by simp [solid.fresh c (List.mem_of_mem_getLast? last)])
    | cons e out =>
      rw [List.getLast?_append_of_ne_nil _ (List.cons_ne_nil e out)] at last
      have there := ih last
      have some' : rest ≠ [] := by
        rintro rfl
        cases there
      rwa [List.getLast?_append_of_ne_nil _ some']

def Apart (space : α → Bool) (a b : α) : Prop := space a = false ∨ space b = false

theorem replaced_apart (solid : Solid space p new) (replaced : Replaced p new text out) (apart : text.IsChain (Apart space)) :
    out.IsChain (Apart space) := by
  induction replaced with
  | nil => exact .nil
  | @keep c rest out free later ih =>
    obtain ⟨next,rest'⟩ := List.isChain_cons.mp apart
    refine List.isChain_cons.mpr ⟨fun d first => ?_,ih rest'⟩
    cases blank : space d with
    | false => exact .inr blank
    | true => exact next d (replaced_head solid later first blank)
  | @swap word rest out found later ih =>
    have below : rest.IsChain (Apart space) := (List.isChain_append.mp apart).2.1
    have solidly : new.Pairwise (Apart space) := List.pairwise_of_forall_mem_list fun a inside _ _ => .inl (solid.fresh a inside)
    exact List.isChain_append.mpr ⟨solidly.isChain,ih below,fun a last _ _ => .inl (solid.fresh a (List.mem_of_mem_getLast? last))⟩

end Spaces
end AgentSideCar.Pattern
