import Mathlib.Data.List.Basic

namespace AgentSideCar.Sieve
variable {α β κ : Type}

-- What a sieve lets through of the entries it has judged.
def kept (f : α → β) (entries : List (α × Bool)) : List β :=
  entries.filterMap fun entry => if entry.2 then some (f entry.1) else none

theorem kept_append (f : α → β) (entries later : List (α × Bool)) :
    kept f (entries ++ later) = kept f entries ++ kept f later := List.filterMap_append

theorem kept_pass (f : α → β) (entry : α) (rest : List (α × Bool)) : kept f ((entry,true) :: rest) = f entry :: kept f rest := rfl

theorem kept_hold (f : α → β) (entry : α) (rest : List (α × Bool)) : kept f ((entry,false) :: rest) = kept f rest := rfl

-- Two runs over one list whose verdicts can differ only at the first entry judged under a kind.
inductive Sieved (judged : α → Option κ) : List κ → List (α × Bool) → List (α × Bool) → Prop
  | nil : Sieved judged touched [] []
  | cons : keep = keep' ∨ (∃ kind, judged entry = some kind ∧ kind ∉ touched) →
      Sieved judged ((judged entry).toList ++ touched) rest rest' →
      Sieved judged touched ((entry,keep) :: rest) ((entry,keep') :: rest')

section Kinds
variable [DecidableEq κ] {judged : α → Option κ} {kindOf : β → κ} {f g : α → β}

def first (judged : α → Option κ) (kind : κ) (entries : List (α × Bool)) : Option Bool :=
  (entries.find? fun entry => judged entry.1 = some kind).map Prod.snd

def count (kindOf : β → κ) (kind : κ) (outputs : List β) : Nat := outputs.countP fun output => kindOf output = kind

theorem count_cons (kind : κ) (output : β) (outputs : List β) : count kindOf kind (output :: outputs) =
    count kindOf kind outputs + if kindOf output = kind then 1 else 0 := by
  simp [count,List.countP_cons]

theorem Sieved.counted (sieved : Sieved judged touched entries entries')
    (named : ∀ entry kind, judged entry = some kind → kindOf (f entry) = kind ∧ kindOf (g entry) = kind)
    (alike : ∀ entry, kindOf (f entry) = kindOf (g entry)) (before : kind ∈ touched) :
    count kindOf kind (kept f entries) = count kindOf kind (kept g entries') := by
  induction sieved with
  | nil => rfl
  | @cons keep keep' entry touched rest rest' verdicts _ ih =>
    have later := ih (List.mem_append_right _ before)
    rcases verdicts with same | ⟨other,judgedAs,fresh⟩
    · subst same
      cases keep with
      | false => exact later
      | true => rw [kept_pass,kept_pass,count_cons,count_cons,later,alike]
    · have apart : other ≠ kind := fun same => fresh (same ▸ before)
      obtain ⟨ours,theirs⟩ := named entry other judgedAs
      have left : count kindOf kind (kept f ((entry,keep) :: rest)) = count kindOf kind (kept f rest) := by
        cases keep with
        | false => rfl
        | true => rw [kept_pass,count_cons,ours,if_neg apart,Nat.add_zero]
      have right : count kindOf kind (kept g ((entry,keep') :: rest')) = count kindOf kind (kept g rest') := by
        cases keep' with
        | false => rfl
        | true => rw [kept_pass,count_cons,theirs,if_neg apart,Nat.add_zero]
      rw [left,right,later]

theorem Sieved.verdicts (sieved : Sieved judged touched entries entries')
    (named : ∀ entry kind, judged entry = some kind → kindOf (f entry) = kind ∧ kindOf (g entry) = kind)
    (alike : ∀ entry, kindOf (f entry) = kindOf (g entry)) (equal : kept f entries = kept g entries') :
    entries = entries' := by
  induction sieved with
  | nil => rfl
  | @cons keep keep' entry touched rest rest' verdicts later ih =>
    by_cases same : keep = keep'
    · subst same
      cases keep with
      | false => rw [ih equal]
      | true =>
        rw [kept_pass,kept_pass,List.cons.injEq] at equal
        rw [ih equal.2]
    · exfalso
      obtain ⟨kind,judgedAs,_⟩ := verdicts.resolve_left same
      obtain ⟨ours,theirs⟩ := named entry kind judgedAs
      have counted := later.counted named alike (show kind ∈ (judged entry).toList ++ touched by simp [judgedAs])
      have equal := congrArg (count kindOf kind) equal
      cases keep with
      | true =>
        cases keep' with
        | true => exact same rfl
        | false =>
          rw [kept_pass,kept_hold,count_cons,ours,if_pos rfl] at equal
          omega
      | false =>
        cases keep' with
        | false => exact same rfl
        | true =>
          rw [kept_pass,kept_hold,count_cons,theirs,if_pos rfl] at equal
          omega

theorem Sieved.settled (sieved : Sieved judged touched entries entries')
    (firsts : ∀ kind, kind ∉ touched → first judged kind entries = first judged kind entries') : entries = entries' := by
  induction sieved with
  | nil => rfl
  | @cons keep keep' entry touched rest rest' verdicts later ih =>
    have same : keep = keep' := by
      rcases verdicts with same | ⟨kind,judgedAs,fresh⟩
      · exact same
      · have := firsts kind fresh
        simpa [first,judgedAs] using this
    subst same
    rw [ih]
    intro kind fresh
    rw [List.mem_append,not_or,Option.mem_toList] at fresh
    have := firsts kind fresh.2
    simpa [first,fresh.1] using this

theorem kept_same (entries : List (α × Bool)) : kept f entries = kept g entries ↔ ∀ entry, (entry,true) ∈ entries → f entry = g entry := by
  induction entries with
  | nil => simp [kept]
  | cons entry rest ih =>
    obtain ⟨entry,keep⟩ := entry
    cases keep with
    | false => rw [kept_hold,kept_hold,ih]; simp
    | true =>
      rw [kept_pass,kept_pass,List.cons.injEq,ih]
      constructor
      · rintro ⟨here,later⟩ other inside
        rcases List.mem_cons.mp inside with same | inside
        · cases same
          exact here
        · exact later other inside
      · exact fun all => ⟨all entry List.mem_cons_self,fun other inside => all other (List.mem_cons_of_mem _ inside)⟩

-- Two such runs let the same through exactly if the first verdicts of each kind agree,
-- and what came through reads the same in both.
theorem Sieved.kept_iff (sieved : Sieved judged [] entries entries')
    (named : ∀ entry kind, judged entry = some kind → kindOf (f entry) = kind ∧ kindOf (g entry) = kind)
    (alike : ∀ entry, kindOf (f entry) = kindOf (g entry)) : kept f entries = kept g entries' ↔
      (∀ kind, first judged kind entries = first judged kind entries') ∧
      ∀ entry, (entry,true) ∈ entries → f entry = g entry := by
  constructor
  · intro equal
    have same := sieved.verdicts named alike equal
    subst same
    exact ⟨fun _ => rfl,(kept_same entries).mp equal⟩
  · rintro ⟨firsts,reads⟩
    have same := sieved.settled fun kind _ => firsts kind
    subst same
    exact (kept_same entries).mpr reads

end Kinds
end AgentSideCar.Sieve
