import AgentSideCar.Library.Runs
import Mathlib.Tactic.ByContra

namespace AgentSideCar
variable {σ φ α β : Type}

-- Parties that share what one of them at a time may hold, each at a place of its own program.
structure Shared (σ φ : Type) where
  common : σ
  place : Nat → φ

-- A party takes its next step, or something outside of all of them changes what is shared.
inductive Shared.Event (α β : Type) where
  | party (i : Nat) (act : α)
  | outer (change : β)

namespace Shared

def move (w : Shared σ φ) (i : Nat) (next : σ × φ) : Shared σ φ := ⟨next.1,fun j => if j = i then next.2 else w.place j⟩

def next (step : Nat → α → σ → φ → σ × φ) (outer : β → σ → σ) (w : Shared σ φ) : Event α β → Shared σ φ
  | .party i act => w.move i (step i act w.common (w.place i))
  | .outer change => {w with common := outer change w.common}

abbrev advance (step : Nat → α → σ → φ → σ × φ) (outer : β → σ → σ) (w : Shared σ φ) (event : Event α β) : Option (Shared σ φ) :=
  some (next step outer w event)

-- From outside something changes only while nobody holds it.
def Calm (out : φ → Prop) (w : Shared σ φ) : Event α β → Prop
  | .party _ _ => True
  | .outer _ => ∀ i, out (w.place i)

-- What each party may always rely on (`mine`), what is so while nobody holds (`free`), and what the holder
-- keeps at each of its places (`held`): every step keeps to it, and who enters finds nobody in.
structure Rules (step : Nat → α → σ → φ → σ × φ) (outer : β → σ → σ) (out : φ → Prop) (mine : Nat → σ → φ → Prop)
    (free : σ → Prop) (held : Nat → σ → φ → Prop) : Prop where
  own : ∀ i act s x, mine i s x → mine i (step i act s x).1 (step i act s x).2
  others : ∀ i j act s x y, i ≠ j → mine i s x → mine j s y → mine i (step j act s y).1 x
  calm : ∀ change s, (∀ i x, mine i s x → mine i (outer change s) x) ∧ (free s → free (outer change s))
  inside : ∀ i act s x, mine i s x → held i s x → ¬ out x →
    (¬ out (step i act s x).2 ∧ held i (step i act s x).1 (step i act s x).2) ∨
    (out (step i act s x).2 ∧ free (step i act s x).1)
  outside : ∀ i act s x, mine i s x → out x →
    (out (step i act s x).2 ∧ (free s → free (step i act s x).1) ∧ ∀ j y, held j s y → held j (step i act s x).1 y) ∨
    (¬ out (step i act s x).2 ∧ (free s → held i (step i act s x).1 (step i act s x).2) ∧
      ∀ j y, j ≠ i → mine j s y → ¬ held j s y)

-- Either nobody is in, or there is the one who is.
inductive Single (out : φ → Prop) (free : σ → Prop) (held : Nat → σ → φ → Prop) (w : Shared σ φ) : Prop where
  | nobody : (∀ i, out (w.place i)) → free w.common → Single out free held w
  | holder (i : Nat) : ¬ out (w.place i) → held i w.common (w.place i) → (∀ j, j ≠ i → out (w.place j)) → Single out free held w

structure Valid (out : φ → Prop) (mine : Nat → σ → φ → Prop) (free : σ → Prop) (held : Nat → σ → φ → Prop) (w : Shared σ φ) : Prop where
  mine : ∀ i, mine i w.common (w.place i)
  single : Single out free held w

variable {step : Nat → α → σ → φ → σ × φ} {outer : β → σ → σ} {out : φ → Prop} {mine : Nat → σ → φ → Prop}
  {free : σ → Prop} {held : Nat → σ → φ → Prop} {w after : Shared σ φ}

@[simp] theorem move_common (w : Shared σ φ) (i : Nat) (next : σ × φ) : (w.move i next).common = next.1 := rfl
@[simp] theorem move_own (w : Shared σ φ) (i : Nat) (next : σ × φ) : (w.move i next).place i = next.2 := if_pos rfl
theorem move_other (w : Shared σ φ) (next : σ × φ) (other : j ≠ i) : (w.move i next).place j = w.place j := if_neg other

theorem Single.only (single : Single out free held w) (inside : ¬ out (w.place i)) :
    held i w.common (w.place i) ∧ ∀ j, j ≠ i → out (w.place j) := by
  cases single with
  | nobody all _ => exact absurd (all i) inside
  | holder j _ keeps alone =>
    have same : i = j := by
      by_contra other
      exact inside (alone i other)
    subst same
    exact ⟨keeps,alone⟩

theorem Single.rest (single : Single out free held w) (all : ∀ i, out (w.place i)) : free w.common := by
  cases single with
  | nobody _ free => exact free
  | holder i inside _ _ => exact absurd (all i) inside

theorem party_mine (rules : Rules step outer out mine free held) (keeps : ∀ i, mine i w.common (w.place i)) (i : Nat) (act : α) (j : Nat) :
    mine j (next step outer w (.party i act)).common ((next step outer w (.party i act)).place j) := by
  show mine j ((w.move i _).common) ((w.move i _).place j)
  by_cases same : j = i
  · subst same
    rw [move_own]
    exact rules.own j act w.common (w.place j) (keeps j)
  · rw [move_other w _ same]
    exact rules.others j i act w.common (w.place j) (w.place i) same (keeps j) (keeps i)

theorem party_single (rules : Rules step outer out mine free held) (valid : Valid out mine free held w) (i : Nat) (act : α) :
    Single out free held (next step outer w (.party i act)) := by
  show Single out free held (w.move i _)
  by_cases inside : out (w.place i)
  · rcases rules.outside i act w.common (w.place i) (valid.mine i) inside with ⟨stays,rests,kept⟩ | ⟨enters,takes,empty⟩
    · cases valid.single with
      | nobody all free =>
        refine .nobody (fun j => ?_) (rests free)
        by_cases same : j = i
        · rw [same,move_own]
          exact stays
        · rw [move_other w _ same]
          exact all j
      | holder j holds keeps alone =>
        have other : j ≠ i := fun same => holds (same ▸ inside)
        refine .holder j ?_ ?_ fun k apart => ?_
        · rw [move_other w _ other]
          exact holds
        · rw [move_other w _ other]
          exact kept j _ keeps
        · by_cases same : k = i
          · rw [same,move_own]
            exact stays
          · rw [move_other w _ same]
            exact alone k apart
    · cases valid.single with
      | nobody all free =>
        refine .holder i ?_ ?_ fun k apart => ?_
        · rw [move_own]
          exact enters
        · rw [move_own]
          exact takes free
        · rw [move_other w _ apart]
          exact all k
      | holder j holds keeps alone =>
        have other : j ≠ i := fun same => holds (same ▸ inside)
        exact absurd keeps (empty j _ other (valid.mine j))
  · obtain ⟨keeps,alone⟩ := valid.single.only inside
    rcases rules.inside i act w.common (w.place i) (valid.mine i) keeps inside with ⟨stays,kept⟩ | ⟨leaves,rests⟩
    · refine .holder i ?_ ?_ fun k apart => ?_
      · rw [move_own]
        exact stays
      · rw [move_own]
        exact kept
      · rw [move_other w _ apart]
        exact alone k apart
    · refine .nobody (fun j => ?_) rests
      by_cases same : j = i
      · rw [same,move_own]
        exact leaves
      · rw [move_other w _ same]
        exact alone j same

theorem next_valid (rules : Rules step outer out mine free held) (valid : Valid out mine free held w) (event : Event α β)
    (calm : Calm out w event) : Valid out mine free held (next step outer w event) := by
  cases event with
  | party i act => exact ⟨party_mine rules valid.mine i act,party_single rules valid i act⟩
  | outer change =>
    obtain ⟨kept,rests⟩ := rules.calm change w.common
    exact ⟨fun i => kept i _ (valid.mine i),.nobody calm (rests (valid.single.rest calm))⟩

theorem run_valid (rules : Rules step outer out mine free held) (valid : Valid out mine free held w)
    (ran : Runs.Run (advance step outer) (Calm out) w events after) : Valid out mine free held after :=
  Runs.Run.invariant (Valid out mine free held) valid (fun _ event _ valid calm stepped => by
    cases stepped
    exact next_valid rules valid event calm) ran

theorem valid_one (valid : Valid out mine free held w) (one : ¬ out (w.place i)) (other : ¬ out (w.place j)) : i = j := by
  by_contra apart
  exact one ((valid.single.only other).2 i apart)

theorem parties_run (acts : List (Nat × α)) (w : Shared σ φ) :
    Runs.Run (advance step outer) (Calm out) w (acts.map fun act => Event.party act.1 act.2)
      (acts.foldl (fun w act => next step outer w (.party act.1 act.2)) w) := by
  induction acts generalizing w with
  | nil => exact .nil
  | cons act rest ih => exact .cons trivial rfl (ih _)

-- The steps one party takes while nobody else takes any.
def solo (step : Nat → α → σ → φ → σ × φ) (i : Nat) (acts : List α) (at' : σ × φ) : σ × φ :=
  acts.foldl (fun now act => step i act now.1 now.2) at'

theorem solo_run (acts : List α) (w : Shared σ φ) (i : Nat) :
    ∃ after : Shared σ φ, Runs.Run (advance step outer) (Calm out) w (acts.map (Event.party i)) after ∧
      (after.common,after.place i) = solo step i acts (w.common,w.place i) := by
  induction acts generalizing w with
  | nil => exact ⟨w,.nil,rfl⟩
  | cons act rest ih =>
    obtain ⟨after,ran,own⟩ := ih (next step outer w (.party i act))
    refine ⟨after,.cons trivial rfl ran,?_⟩
    rw [own]
    show solo step i rest ((w.move i _).common,(w.move i _).place i) = _
    rw [move_own]
    rfl

-- What a party comes to by itself, taking one after the other of the steps it is given.
def Reaches (step : Nat → α → σ → φ → σ × φ) (i : Nat) (acts : Nat → α) (goal : σ × φ → Prop) (at' : σ × φ) : Prop :=
  ∃ n, goal (solo step i ((List.range n).map acts) at')

theorem reaches_now {goal : σ × φ → Prop} (acts : Nat → α) (there : goal at') : Reaches step i acts goal at' := ⟨0,there⟩

theorem reaches_step {goal : σ × φ → Prop} {acts : Nat → α}
    (later : Reaches step i (fun k => acts (k + 1)) goal (step i (acts 0) at'.1 at'.2)) : Reaches step i acts goal at' := by
  obtain ⟨n,there⟩ := later
  refine ⟨n + 1,?_⟩
  rw [List.range_succ_eq_map,List.map_cons,List.map_map]
  exact there

theorem reaches_run {goal : σ × φ → Prop} {acts : Nat → α} (reaches : Reaches step i acts goal (w.common,w.place i)) :
    ∃ n, ∃ after : Shared σ φ, Runs.Run (advance step outer) (Calm out) w ((List.range n).map fun k => Event.party i (acts k)) after ∧
      goal (after.common,after.place i) := by
  obtain ⟨n,there⟩ := reaches
  obtain ⟨after,ran,own⟩ : ∃ after : Shared σ φ, Runs.Run (advance step outer) (Calm out) w _ after ∧ _ :=
    solo_run ((List.range n).map acts) w i
  rw [List.map_map] at ran
  exact ⟨n,after,ran,own ▸ there⟩

end Shared
end AgentSideCar
