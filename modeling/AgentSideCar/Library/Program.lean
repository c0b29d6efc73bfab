import Mathlib.Logic.Basic
import Mathlib.Data.List.Forall2
import Mathlib.Data.List.Perm.Basic

-- A computation over a state: it answers or raises, and leaves the state behind either way.
def AgentSideCar.Program (σ x α : Type) : Type := σ → Except x α × σ

namespace AgentSideCar.Program
variable {σ x α β : Type}

def done (a : α) : Program σ x α := fun s => (.ok a,s)
def raise (e : x) : Program σ x α := fun s => (.error e,s)
def bind (p : Program σ x α) (rest : α → Program σ x β) : Program σ x β := fun s =>
  match p s with
  | (.ok a,t) => rest a t
  | (.error e,t) => (.error e,t)

instance : Monad (Program σ x) where
  pure := done
  bind := bind

def read : Program σ x σ := fun s => (.ok s,s)
def change (f : σ → σ) : Program σ x Unit := fun s => (.ok (),f s)
def settle (outcome : Except x α) : Program σ x α := fun s => (outcome,s)

-- From any state of the first kind a program answers in a state of the second, or raises in one
-- of the third.
def Triple (before : σ → Prop) (p : Program σ x α) (after : α → σ → Prop) (failed : x → σ → Prop) : Prop :=
  ∀ s, before s → match p s with
    | (.ok a,t) => after a t
    | (.error e,t) => failed e t

variable {before : σ → Prop} {p : Program σ x α} {after : α → σ → Prop} {failed : x → σ → Prop}

theorem Triple.answered (triple : Triple before p after failed) (holds : before s) (ran : p s = (.ok a,t)) : after a t := by
  have := triple s holds
  rw [ran] at this
  exact this

theorem Triple.raised (triple : Triple before p after failed) (holds : before s) (ran : p s = (.error e,t)) : failed e t := by
  have := triple s holds
  rw [ran] at this
  exact this

theorem Triple.done {a : α} (holds : ∀ s, before s → after a s) : Triple before (done a : Program σ x α) after failed := holds

theorem Triple.pure {a : α} (holds : ∀ s, before s → after a s) : Triple before (pure a : Program σ x α) after failed := holds

theorem Triple.raise {e : x} (holds : ∀ s, before s → failed e s) : Triple before (raise e : Program σ x α) after failed := holds

theorem Triple.read {after : σ → σ → Prop} (holds : ∀ s, before s → after s s) : Triple before (read : Program σ x σ) after failed := holds

theorem Triple.change {f : σ → σ} {after : Unit → σ → Prop} (holds : ∀ s, before s → after () (f s)) :
    Triple before (change f : Program σ x Unit) after failed := holds

theorem Triple.settle {outcome : Except x α} (answers : ∀ a, outcome = .ok a → ∀ s, before s → after a s)
    (raises : ∀ e, outcome = .error e → ∀ s, before s → failed e s) : Triple before (settle outcome) after failed := by
  intro s holds
  cases outcome with
  | ok a => exact answers a rfl s holds
  | error e => exact raises e rfl s holds

theorem Triple.known {outcome : Except x α} {spoilt : σ → Prop} (fails : ∀ s, before s → spoilt s) :
    Triple before (Program.settle outcome) (fun a s => outcome = .ok a ∧ before s) (fun _ => spoilt) :=
  .settle (fun _ same _ holds => ⟨same,holds⟩) (fun _ _ s holds => fails s holds)

theorem Triple.bind {rest : α → Program σ x β} {middle : α → σ → Prop} {after : β → σ → Prop}
    (first : Triple before p middle failed) (later : ∀ a, Triple (middle a) (rest a) after failed) :
    Triple before (p >>= rest) after failed := by
  intro s holds
  have stage := first s holds
  change match Program.bind p rest s with | (.ok b,t) => after b t | (.error e,t) => failed e t
  unfold Program.bind
  cases ran : p s with
  | mk outcome t =>
    rw [ran] at stage
    cases outcome with
    | ok a => exact later a t stage
    | error e => exact stage

theorem Triple.through {rest : α → Program σ x β} {after : β → σ → Prop} (middle : α → σ → Prop)
    (first : Triple before p middle failed) (later : ∀ a, Triple (middle a) (rest a) after failed) :
    Triple before (p >>= rest) after failed := .bind first later

theorem Triple.weaken {before' : σ → Prop} {after' : α → σ → Prop} {failed' : x → σ → Prop} (triple : Triple before p after failed)
    (less : ∀ s, before' s → before s) (more : ∀ a s, after a s → after' a s) (other : ∀ e s, failed e s → failed' e s) :
    Triple before' p after' failed' := by
  intro s holds
  have stage := triple s (less s holds)
  cases ran : p s with
  | mk outcome t =>
    rw [ran] at stage
    cases outcome with
    | ok a => exact more a t stage
    | error e => exact other e t stage

theorem Triple.named {γ : Type} (f : σ → γ) (each : ∀ g, Triple (fun s => f s = g ∧ before s) p after failed) : Triple before p after failed :=
  fun s holds => each (f s) s ⟨rfl,holds⟩

theorem Triple.given {fact : Prop} (triple : fact → Triple before p after failed) : Triple (fun s => fact ∧ before s) p after failed :=
  fun s holds => triple holds.1 s holds.2

end AgentSideCar.Program

namespace AgentSideCar.Attempt
variable {ε α β : Type}

theorem bound_ok {x : Except ε α} {next : α → Except ε β} (made : x >>= next = .ok b) : ∃ a, x = .ok a ∧ next a = .ok b := by
  cases x with
  | error e => cases made
  | ok a => exact ⟨a,rfl,made⟩

theorem mapM_ok {step : α → Except ε β} {l : List α} (made : l.mapM step = .ok m) : List.Forall₂ (fun a b => step a = .ok b) l m := by
  induction l generalizing m with
  | nil =>
    cases made
    exact .nil
  | cons a l ih =>
    rw [List.mapM_cons] at made
    obtain ⟨b,first,made⟩ := bound_ok made
    obtain ⟨bs,rest,same⟩ := bound_ok made
    cases same
    exact .cons first (ih rest)

end AgentSideCar.Attempt

namespace AgentSideCar.Screen
variable {α β : Type}

-- A loop over a list whose body refuses the whole list, passes an element over, or takes
-- something of it.
def screen (judge : α → Option (Option β)) : List α → Option (List β)
  | [] => some []
  | x :: rest => do
    let taken ← judge x
    let later ← screen judge rest
    some (taken.toList ++ later)

variable {judge other : α → Option (Option β)} {l m : List α}

theorem screen_some (fine : ∀ x ∈ l, judge x ≠ none) : screen judge l = some (l.filterMap fun x => (judge x).join) := by
  induction l with
  | nil => rfl
  | cons x rest ih =>
    have later := ih fun y inside => fine y (List.mem_cons_of_mem _ inside)
    cases judged : judge x with
    | none => exact absurd judged (fine x List.mem_cons_self)
    | some taken =>
      rw [screen,judged,later]
      cases taken with
      | none => simp [judged]
      | some b => simp [judged]

theorem screen_none (inside : x ∈ l) (refused : judge x = none) : screen judge l = none := by
  induction l with
  | nil => cases inside
  | cons y rest ih =>
    rw [screen]
    rcases List.mem_cons.mp inside with rfl | later
    · rw [refused]
      rfl
    · rw [ih later]
      cases judge y <;> rfl

theorem screen_congr (same : ∀ x ∈ l, judge x = other x) : screen judge l = screen other l := by
  induction l with
  | nil => rfl
  | cons x rest ih =>
    rw [screen,screen,same x List.mem_cons_self,ih fun y inside => same y (List.mem_cons_of_mem _ inside)]

theorem screen_map {γ : Type} (f : γ → α) (xs : List γ) : screen judge (xs.map f) = screen (judge ∘ f) xs := by
  induction xs with
  | nil => rfl
  | cons x rest ih => rw [List.map_cons,screen,screen,ih]; rfl

end AgentSideCar.Screen
