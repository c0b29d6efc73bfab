import Mathlib.Logic.Basic
import Mathlib.Data.List.Basic

namespace AgentSideCar.Runs
variable {σ ε : Type} {advance : σ → ε → Option σ} {allowed : σ → ε → Prop}

-- A run of a partial step function. `allowed` is a condition on the state
-- before a step and its event; it is checked at every step and never repaired.
inductive Run (advance : σ → ε → Option σ) (allowed : σ → ε → Prop) : σ → List ε → σ → Prop where
  | nil : Run advance allowed s [] s
  | cons : allowed s event → advance s event = some middle →
      Run advance allowed middle rest after → Run advance allowed s (event :: rest) after

abbrev Any : σ → ε → Prop := fun _ _ => True

theorem Run.append (first : Run advance allowed s early middle)
    (second : Run advance allowed middle late after) : Run advance allowed s (early ++ late) after := by
  induction first with
  | nil => exact second
  | cons fits stepped _ ih => exact .cons fits stepped (ih second)

theorem Run.single (fits : allowed s event) (stepped : advance s event = some after) :
    Run advance allowed s [event] after := .cons fits stepped .nil

theorem Run.snoc (path : Run advance allowed s events middle) (fits : allowed middle event)
    (stepped : advance middle event = some after) : Run advance allowed s (events ++ [event]) after :=
  path.append (.single fits stepped)

-- The one induction on runs: what every admitted step keeps, every run keeps.
theorem Run.invariant (inv : σ → Prop) (start : inv s)
    (kept : ∀ before event after, inv before → allowed before event →
      advance before event = some after → inv after)
    (path : Run advance allowed s events after) : inv after := by
  induction path with
  | nil => exact start
  | cons fits stepped _ ih => exact ih (kept _ _ _ start fits stepped)

theorem Run.weaken {wider : σ → ε → Prop} (path : Run advance allowed s events after)
    (weaken : ∀ before event, allowed before event → wider before event) : Run advance wider s events after := by
  induction path with
  | nil => exact .nil
  | cons fits stepped _ ih => exact .cons (weaken _ _ fits) stepped ih

theorem Run.among {accepts : ε → Prop} (path : Run advance allowed s events after) (kind : ∀ event ∈ events, accepts event) :
    Run advance (fun s event => allowed s event ∧ accepts event) s events after := by
  induction path with
  | nil => exact .nil
  | cons fits stepped _ ih =>
    exact .cons ⟨fits,kind _ List.mem_cons_self⟩ stepped (ih fun event inside => kind event (List.mem_cons_of_mem _ inside))

section Executable
variable [∀ s event, Decidable (allowed s event)]

def follow (advance : σ → ε → Option σ) (allowed : σ → ε → Prop)
    [∀ s event, Decidable (allowed s event)] : σ → List ε → Option σ
  | s,[] => some s
  | s,event :: rest =>
    if allowed s event then (advance s event).bind (follow advance allowed · rest) else none

theorem follow_exact : follow advance allowed s events = some after ↔ Run advance allowed s events after := by
  induction events generalizing s with
  | nil =>
    constructor
    · intro done; cases Option.some.inj done; exact .nil
    · intro path; cases path; rfl
  | cons event rest ih =>
    constructor
    · intro done
      unfold follow at done
      split at done
      · rename_i fits
        obtain ⟨middle,stepped,later⟩ := Option.bind_eq_some_iff.mp done
        exact .cons fits stepped (ih.mp later)
      · cases done
    · intro path
      cases path with
      | cons fits stepped later => simp [follow,fits,stepped,ih.mpr later]

end Executable
end AgentSideCar.Runs

namespace AgentSideCar.Chronicle
variable {α : Type}

-- A history is a list, the latest entry first. `Each law` says of every entry, with the
-- entries before it, what the law says.
def Each (law : α → List α → Prop) : List α → Prop
  | [] => True
  | entry :: earlier => law entry earlier ∧ Each law earlier

theorem Each.imp {law other : α → List α → Prop} (step : ∀ entry earlier, law entry earlier → other entry earlier) :
    ∀ {history : List α}, Each law history → Each other history
  | [],_ => trivial
  | _ :: _,⟨first,rest⟩ => ⟨step _ _ first,rest.imp step⟩

theorem Each.and {law other : α → List α → Prop} :
    ∀ {history : List α}, Each law history → Each other history → Each (fun entry earlier => law entry earlier ∧ other entry earlier) history
  | [],_,_ => trivial
  | _ :: _,⟨first,rest⟩,⟨second,more⟩ => ⟨⟨first,second⟩,rest.and more⟩

section Since
variable [DecidableEq α] {mark entry : α} {history : List α}

-- What happened after the latest entry that is the mark.
def since (mark : α) (history : List α) : List α := history.takeWhile (fun entry => decide (entry ≠ mark))

@[simp] theorem since_mark : since mark (mark :: history) = [] := by simp [since]

theorem since_other (other : entry ≠ mark) : since mark (entry :: history) = entry :: since mark history := by
  simp [since,other]

end Since
end AgentSideCar.Chronicle

namespace AgentSideCar.Ever
variable {α : Type} {begins : List α → α → Prop} {stays : α → Prop} {history : List α}

-- An entry of a history began something, in view of the entries before it, and each entry
-- after it let it stay.
def Since (begins : List α → α → Prop) (stays : α → Prop) (history : List α) : Prop :=
  ∃ before entry after, history = before ++ entry :: after ∧ begins before entry ∧ ∀ later ∈ after, stays later

theorem since_nil : ¬ Since begins stays [] := by
  rintro ⟨before,entry,after,same,_⟩
  exact absurd same.symm (by simp)

theorem since_snoc (last : α) : Since begins stays (history ++ [last]) ↔
    begins history last ∨ stays last ∧ Since begins stays history := by
  constructor
  · rintro ⟨before,entry,after,same,began,stayed⟩
    rcases List.eq_nil_or_concat after with rfl | ⟨early,final,rfl⟩
    · obtain ⟨rfl,one⟩ := List.append_inj' same rfl
      cases one
      exact .inl began
    · rw [List.concat_eq_append,← List.cons_append,← List.append_assoc] at same
      obtain ⟨rfl,one⟩ := List.append_inj' same rfl
      cases one
      exact .inr ⟨stayed last (by simp),before,entry,early,rfl,began,fun later inside => stayed later (by simp [inside])⟩
  · rintro (began | ⟨stayed,before,entry,after,rfl,began,kept⟩)
    · exact ⟨history,last,[],rfl,began,nofun⟩
    · refine ⟨before,entry,after ++ [last],by simp,began,fun later inside => ?_⟩
      rcases List.mem_append.mp inside with early | final
      · exact kept later early
      · rw [List.mem_singleton.mp final]
        exact stayed

end AgentSideCar.Ever
