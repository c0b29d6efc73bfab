import Mathlib.Data.List.Sort

namespace AgentSideCar.Merge
variable {α : Type}

-- The two-pointer loop with its number of steps, so that it computes.
def twoPointer (le : α → α → Bool) : Nat → List α → List α → List α
  | 0,xs,ys => xs ++ ys
  | _+1,[],ys => ys
  | _+1,xs,[] => xs
  | steps+1,x :: xs,y :: ys =>
    if le x y then x :: twoPointer le steps xs (y :: ys) else y :: twoPointer le steps (x :: xs) ys

def interleave (le : α → α → Bool) (xs ys : List α) : List α := twoPointer le (xs.length + ys.length) xs ys

theorem twoPointer_exact (le : α → α → Bool) (steps : Nat) (xs ys : List α) (enough : xs.length + ys.length ≤ steps) :
    twoPointer le steps xs ys = xs.merge ys le := by
  induction steps generalizing xs ys with
  | zero =>
    cases xs <;> cases ys <;> simp_all [twoPointer]
  | succ steps ih =>
    match xs,ys with
    | [],ys => simp [twoPointer]
    | x :: xs,[] => simp [twoPointer]
    | x :: xs,y :: ys =>
      simp only [List.length_cons] at enough
      rw [twoPointer,List.cons_merge_cons]
      split
      · rw [ih xs (y :: ys) (by simp only [List.length_cons]; omega)]
      · rw [ih (x :: xs) ys (by simp only [List.length_cons]; omega)]

theorem interleave_exact (le : α → α → Bool) (xs ys : List α) : interleave le xs ys = xs.merge ys le :=
  twoPointer_exact le _ xs ys le_rfl

-- The loop as it is written: two cursors, what was taken so far, and no answer
-- when its turns run out.
def loop (le : α → α → Bool) (xs ys : List α) : Nat → Nat → Nat → List α → Option (List α)
  | 0,_,_,_ => none
  | turns+1,i,j,out =>
    match xs[i]?,ys[j]? with
    | none,none => some out
    | some a,none => loop le xs ys turns (i + 1) j (out ++ [a])
    | none,some b => loop le xs ys turns i (j + 1) (out ++ [b])
    | some a,some b =>
      if le a b then loop le xs ys turns (i + 1) j (out ++ [a]) else loop le xs ys turns i (j + 1) (out ++ [b])

theorem loop_exact (le : α → α → Bool) (xs ys : List α) (turns i j : Nat) (out : List α)
    (enough : (xs.drop i).length + (ys.drop j).length < turns) :
    loop le xs ys turns i j out = some (out ++ (xs.drop i).merge (ys.drop j) le) := by
  induction turns generalizing i j out with
  | zero => omega
  | succ turns ih =>
    rw [loop]
    cases left : xs[i]? with
    | none =>
      have spent : xs.drop i = [] := List.drop_eq_nil_of_le (List.getElem?_eq_none_iff.mp left)
      cases right : ys[j]? with
      | none =>
        have spent' : ys.drop j = [] := List.drop_eq_nil_of_le (List.getElem?_eq_none_iff.mp right)
        simp [spent,spent']
      | some b =>
        obtain ⟨inside,rfl⟩ := List.getElem?_eq_some_iff.mp right
        rw [List.drop_eq_getElem_cons inside] at enough ⊢
        rw [spent] at enough ⊢
        simp only [List.length_cons,List.length_nil] at enough
        simp only
        rw [ih i (j + 1) _ (by rw [spent]; simp only [List.length_nil]; omega),spent]
        simp
    | some a =>
      obtain ⟨inside,rfl⟩ := List.getElem?_eq_some_iff.mp left
      have head := List.drop_eq_getElem_cons inside
      cases right : ys[j]? with
      | none =>
        have spent : ys.drop j = [] := List.drop_eq_nil_of_le (List.getElem?_eq_none_iff.mp right)
        rw [head,spent] at enough
        simp only [List.length_cons,List.length_nil] at enough
        simp only
        rw [ih (i + 1) j _ (by rw [spent]; simp only [List.length_nil]; omega),spent,head]
        simp
      | some b =>
        obtain ⟨inside',rfl⟩ := List.getElem?_eq_some_iff.mp right
        have head' := List.drop_eq_getElem_cons inside'
        rw [head,head'] at enough ⊢
        simp only [List.length_cons] at enough
        simp only
        rw [List.cons_merge_cons]
        split
        · rw [ih (i + 1) j _ (by rw [head']; simp only [List.length_cons]; omega),head']
          simp
        · rw [ih i (j + 1) _ (by rw [head]; simp only [List.length_cons]; omega),head]
          simp

theorem merge_filter (le : α → α → Bool) (accept : α → Bool) (xs ys : List α)
    (left : ∀ x ∈ xs, accept x = true) (right : ∀ y ∈ ys, accept y = false) :
    (xs.merge ys le).filter accept = xs := by
  induction xs generalizing ys with
  | nil => simpa using right
  | cons x xs ihx =>
    have later : ∀ y ∈ xs, accept y = true := fun y inside => left y (List.mem_cons_of_mem _ inside)
    induction ys with
    | nil => simpa using List.filter_eq_self.mpr left
    | cons y ys ihy =>
      rw [List.cons_merge_cons]
      split
      · rw [List.filter_cons_of_pos (left x List.mem_cons_self),ihx (y :: ys) later right]
      · rw [List.filter_cons_of_neg (by simp [right y List.mem_cons_self])]
        exact ihy fun z inside => right z (List.mem_cons_of_mem _ inside)

theorem merge_filter_not (le : α → α → Bool) (accept : α → Bool) (xs ys : List α)
    (left : ∀ x ∈ xs, accept x = false) (right : ∀ y ∈ ys, accept y = true) :
    (xs.merge ys le).filter accept = ys := by
  induction xs generalizing ys with
  | nil => simpa using right
  | cons x xs ihx =>
    have later : ∀ y ∈ xs, accept y = false := fun y inside => left y (List.mem_cons_of_mem _ inside)
    induction ys with
    | nil => simpa using left
    | cons y ys ihy =>
      rw [List.cons_merge_cons]
      split
      · rw [List.filter_cons_of_neg (by simp [left x List.mem_cons_self]),ihx (y :: ys) later right]
      · rw [List.filter_cons_of_pos (right y List.mem_cons_self),
          ihy fun z inside => right z (List.mem_cons_of_mem _ inside)]

section Stable
variable (r : α → α → Prop) [DecidableRel r]

theorem insert_stable (accept : α → Bool) (related : ∀ a b, accept a = true → accept b = true → r a b)
    (a : α) (l : List α) : (l.orderedInsert r a).filter accept = (a :: l).filter accept := by
  induction l with
  | nil => rfl
  | cons b l ih =>
    rw [List.orderedInsert_cons]
    split
    · rfl
    · rename_i apart
      cases left : accept a <;> cases right : accept b
      · simp_all
      · simp_all
      · simp_all
      · exact absurd (related a b left right) apart

theorem sort_stable (accept : α → Bool) (related : ∀ a b, accept a = true → accept b = true → r a b)
    (l : List α) : (l.insertionSort r).filter accept = l.filter accept := by
  induction l with
  | nil => rfl
  | cons a l ih => rw [List.insertionSort_cons,insert_stable r accept related,List.filter_cons,ih,List.filter_cons]

end Stable

-- Two sorted lists that agree class by class are equal.
theorem sorted_classes {β : Type} [DecidableEq β] (r : α → α → Prop) (cls : α → β) (xs ys : List α)
    (left : xs.Pairwise r) (right : ys.Pairwise r) (refl : ∀ a, r a a)
    (anti : ∀ a b, a ∈ xs ∨ a ∈ ys → b ∈ xs ∨ b ∈ ys → r a b → r b a → cls a = cls b)
    (same : ∀ k, xs.filter (cls · = k) = ys.filter (cls · = k)) : xs = ys := by
  have shared : ∀ z, z ∈ xs ↔ z ∈ ys := by
    intro z
    have := congrArg (z ∈ ·) (same (cls z))
    simpa [List.mem_filter] using this
  induction xs generalizing ys with
  | nil => exact (List.eq_nil_iff_forall_not_mem.mpr fun z inside => by simpa using (shared z).mpr inside).symm
  | cons x xs ih =>
    cases ys with
    | nil => simpa using (shared x).mp List.mem_cons_self
    | cons y ys =>
      have down : r x y := by
        rcases List.mem_cons.mp ((shared y).mpr List.mem_cons_self) with eq | inside
        · exact eq ▸ refl y
        · exact (List.pairwise_cons.mp left).1 y inside
      have up : r y x := by
        rcases List.mem_cons.mp ((shared x).mp List.mem_cons_self) with eq | inside
        · exact eq ▸ refl x
        · exact (List.pairwise_cons.mp right).1 x inside
      have one : cls x = cls y := anti x y (.inl List.mem_cons_self) (.inr List.mem_cons_self) down up
      have heads := same (cls x)
      rw [List.filter_cons_of_pos (by simp),List.filter_cons_of_pos (by simp [one])] at heads
      obtain ⟨rfl,_⟩ := List.cons.inj heads
      have rest : ∀ k, xs.filter (cls · = k) = ys.filter (cls · = k) := by
        intro k
        have := same k
        rw [List.filter_cons,List.filter_cons] at this
        split at this
        · exact (List.cons.inj this).2
        · exact this
      congr 1
      refine ih ys (List.pairwise_cons.mp left).2 (List.pairwise_cons.mp right).2 ?_ rest ?_
      · intro a b ina inb
        exact anti a b (ina.imp (List.mem_cons_of_mem _) (List.mem_cons_of_mem _))
          (inb.imp (List.mem_cons_of_mem _) (List.mem_cons_of_mem _))
      · intro z
        have := congrArg (z ∈ ·) (rest (cls z))
        simpa [List.mem_filter] using this

end AgentSideCar.Merge
