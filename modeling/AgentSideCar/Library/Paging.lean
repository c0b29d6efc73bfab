import Mathlib.Data.List.TakeWhile

namespace AgentSideCar.Paging
variable {α κ : Type}

-- Backward paging over a list that is scanned from the front: `older` compares an
-- entry with a cursor, `mark` is the cursor an entry leaves, and `start` is the
-- first index of the page that ends before a given index.
structure Scheme (α κ : Type) where
  older : α → κ → Bool
  mark : α → κ
  start : List α → Nat → Nat

structure Page (α κ : Type) where
  entries : List α
  cursor : Option κ

variable (p : Scheme α κ)

def endOf (entries : List α) : Option κ → Nat
  | none => entries.length
  | some cursor => (entries.takeWhile (p.older · cursor)).length

def page (entries : List α) (before : Option κ) : Page α κ :=
  let finish := endOf p entries before
  let first := p.start entries finish
  let window := (entries.take finish).drop first
  ⟨window,if 0 < first then window.head?.map p.mark else none⟩

-- The reader's loop, oldest page first; none when the fuel runs out.
def walk (entries : List α) : Nat → Option κ → Option (List α)
  | 0,_ => none
  | fuel+1,before =>
    match (page p entries before).cursor with
    | none => some (page p entries before).entries
    | some cursor => (walk entries fuel (some cursor)).map (· ++ (page p entries before).entries)

-- The page boundaries a reader passes as long as no scan stops early.
inductive Boundary (entries : List α) : Nat → Nat → Prop where
  | here : Boundary entries finish (p.start entries finish)
  | older : Boundary entries (p.start entries finish) first → Boundary entries finish first

def AlignedAt (entries : List α) (first : Nat) : Prop :=
  ∀ i < first, ∀ a b, entries[i]? = some a → entries[first]? = some b → p.older a (p.mark b) = true

def Aligned (entries : List α) : Prop := ∀ first, Boundary p entries entries.length first → AlignedAt p entries first

structure Lawful : Prop where
  strict : ∀ a, p.older a (p.mark a) = false
  within : ∀ entries finish, p.start entries finish ≤ finish
  moves : ∀ entries finish, 0 < finish → finish ≤ entries.length → p.start entries finish < finish

variable {p}

theorem boundary_zero (lawful : Lawful p) (below : Boundary p entries 0 first) : first = 0 := by
  have zero : p.start entries 0 = 0 := Nat.le_zero.mp (lawful.within entries 0)
  generalize at' : 0 = finish at below
  induction below with
  | here => rw [← at',zero]
  | older _ ih => exact (ih (by rw [← at',zero])).trans (by rw [← at',zero])

theorem takeWhile_length_le (accept : α → Bool) (entries : List α) (first : Nat) (a : α)
    (present : entries[first]? = some a) (rejected : accept a = false) :
    (entries.takeWhile accept).length ≤ first := by
  induction entries generalizing first with
  | nil => simp at present
  | cons x rest ih =>
    cases first with
    | zero =>
      cases Option.some.inj present
      simp [rejected]
    | succ n =>
      rw [List.takeWhile_cons]
      split
      · exact Nat.succ_le_succ (ih n (by simpa using present))
      · exact Nat.zero_le _

theorem takeWhile_length_iff (accept : α → Bool) (entries : List α) (first : Nat) (a : α)
    (present : entries[first]? = some a) (rejected : accept a = false) :
    (entries.takeWhile accept).length = first ↔ ∀ i < first, ∀ b, entries[i]? = some b → accept b = true := by
  induction entries generalizing first with
  | nil => simp at present
  | cons x rest ih =>
    cases first with
    | zero =>
      cases Option.some.inj present
      simp [rejected]
    | succ n =>
      have later := ih n (by simpa using present)
      rw [List.takeWhile_cons]
      constructor
      · intro reached i below b seen
        split at reached
        · rename_i accepted
          cases i with
          | zero => cases Option.some.inj seen; exact accepted
          | succ i => exact later.mp (Nat.succ.inj reached) i (by omega) b (by simpa using seen)
        · cases reached
      · intro all
        have accepted : accept x = true := all 0 (by omega) x rfl
        rw [if_pos accepted,List.length_cons,Nat.succ_inj]
        exact later.mpr fun i below b seen => all (i + 1) (by omega) b (by simpa using seen)

theorem walk_from (lawful : Lawful p) (entries : List α) (finish : Nat) (before : Option κ)
    (bounded : finish ≤ entries.length) (stops : endOf p entries before = finish) :
    ∃ fuel out, walk p entries fuel before = some out ∧ out.length ≤ finish ∧
      (out = entries.take finish ↔ ∀ first, Boundary p entries finish first → AlignedAt p entries first) := by
  induction finish using Nat.strong_induction_on generalizing before with
  | _ finish ih =>
    have shown : page p entries before = ⟨(entries.take finish).drop (p.start entries finish),
        if 0 < p.start entries finish then ((entries.take finish).drop (p.start entries finish)).head?.map p.mark
        else none⟩ := by rw [page,stops]
    rcases Nat.eq_zero_or_pos (p.start entries finish) with zero | positive
    · refine ⟨1,entries.take finish,?_,List.length_take_le _ _,?_⟩
      · simp [walk,shown,zero]
      · refine iff_of_true rfl fun first below i earlier => ?_
        have : first = 0 := by
          cases below with
          | here => exact zero
          | older below => rw [zero] at below; exact boundary_zero lawful below
        omega
    · have moved : p.start entries finish < finish :=
        lawful.moves entries finish (by have := lawful.within entries finish; omega) bounded
      generalize at' : p.start entries finish = first at shown positive moved
      obtain ⟨c,present⟩ : ∃ c, entries[first]? = some c :=
        ⟨_,List.getElem?_eq_getElem (show first < entries.length by omega)⟩
      have head : ((entries.take finish).drop first).head? = some c := by
        rw [List.head?_drop,List.getElem?_take,if_pos moved,present]
      rw [if_pos positive,head] at shown
      have strict := lawful.strict c
      have next := takeWhile_length_le (p.older · (p.mark c)) entries first c present strict
      have exact' := takeWhile_length_iff (p.older · (p.mark c)) entries first c present strict
      generalize rest : (entries.takeWhile (p.older · (p.mark c))).length = stop at next exact'
      obtain ⟨fuel,out,walked,short,full⟩ := ih stop (by omega) (some (p.mark c)) (by omega) rest
      refine ⟨fuel + 1,out ++ (entries.take finish).drop first,by simp [walk,shown,walked],?_,?_⟩
      · simp only [List.length_append,List.length_drop,List.length_take]; omega
      · have split : entries.take finish = entries.take first ++ (entries.take finish).drop first := by
          conv => lhs; rw [← List.take_append_drop first (entries.take finish)]
          rw [List.take_take,Nat.min_eq_left (by omega)]
        have aligned : AlignedAt p entries first ↔ stop = first := by
          rw [exact']
          constructor
          · intro all i below a seen; exact all i below a c seen present
          · intro all i below a b seen other
            cases present.symm.trans other
            exact all i below a seen
        have below : (∀ s, Boundary p entries finish s → AlignedAt p entries s) ↔
            AlignedAt p entries first ∧ ∀ s, Boundary p entries first s → AlignedAt p entries s := by
          constructor
          · intro all
            exact ⟨all first (at' ▸ .here),fun s later => all s (.older (at' ▸ later))⟩
          · rintro ⟨one,later⟩ s reached
            cases reached with
            | here => exact at' ▸ one
            | older reached => exact later s (at' ▸ reached)
        rw [below]
        conv => lhs; rhs; rw [split]
        rw [List.append_left_inj,aligned]
        constructor
        · intro same
          have reached : stop = first := by
            have long := congrArg List.length same
            rw [List.length_take] at long
            omega
          subst reached
          exact ⟨rfl,full.mp same⟩
        · rintro ⟨reached,all⟩
          subst reached
          exact full.mpr all

-- Following the cursor from the newest page always ends, and the pages are the
-- whole list exactly when every boundary is strictly newer than all before it.
theorem walk_exact (lawful : Lawful p) (entries : List α) :
    ∃ fuel out, walk p entries fuel none = some out ∧ (out = entries ↔ Aligned p entries) := by
  obtain ⟨fuel,out,walked,_,full⟩ := walk_from lawful entries entries.length none le_rfl rfl
  rw [List.take_length] at full
  exact ⟨fuel,out,walked,full⟩

end AgentSideCar.Paging
