import Mathlib.Logic.Basic

-- A computation that leaves a trace and then answers or raises.
structure AgentSideCar.Traced (ε x α : Type) where
  trace : List ε
  outcome : Except x α

namespace AgentSideCar.Traced
variable {ε x α β γ : Type}

def done (a : α) : Traced ε x α := ⟨[],.ok a⟩
def raise (e : x) : Traced ε x α := ⟨[],.error e⟩
def emit (e : ε) : Traced ε x Unit := ⟨[e],.ok ()⟩

-- A call that leaves no trace of its own.
def quietly (outcome : Except x α) : Traced ε x α := ⟨[],outcome⟩
def unlessRaised (raised : Option x) : Traced ε x Unit :=
  match raised with
  | none => done ()
  | some e => raise e

-- try, except and else: the handler raises again what it does not catch.
def attempt (t : Traced ε x α) (rest : α → Traced ε x β) (handler : x → Traced ε x β) : Traced ε x β :=
  match t.outcome with
  | .ok a => ⟨t.trace ++ (rest a).trace,(rest a).outcome⟩
  | .error e => ⟨t.trace ++ (handler e).trace,(handler e).outcome⟩

def bind (t : Traced ε x α) (rest : α → Traced ε x β) : Traced ε x β := t.attempt rest raise

instance : Monad (Traced ε x) where
  pure := done
  bind := bind

def handled (t : Traced ε x α) (handler : x → Traced ε x α) : Traced ε x α := t.attempt done handler

-- try and finally: what the cleanup raises takes the place of the outcome.
def ensuring (t : Traced ε x α) (cleanup : Traced ε x Unit) : Traced ε x α :=
  ⟨t.trace ++ cleanup.trace,match cleanup.outcome with
    | .ok () => t.outcome
    | .error e => .error e⟩

-- No marked event; no error of a kind; and an error of the kind only without a marked event.
def Quiet (marked : ε → Prop) (t : Traced ε x α) : Prop := ∀ e ∈ t.trace, ¬ marked e
def Mild (kind : x → Prop) (t : Traced ε x α) : Prop := ∀ e, t.outcome = .error e → ¬ kind e
def Honest (marked : ε → Prop) (kind : x → Prop) (t : Traced ε x α) : Prop :=
  ∀ e, t.outcome = .error e → kind e → t.Quiet marked

variable {marked : ε → Prop} {kind : x → Prop} {t : Traced ε x α} {rest : α → Traced ε x β} {handler : x → Traced ε x β}

theorem Quiet.nil {outcome : Except x α} : Quiet marked (⟨[],outcome⟩ : Traced ε x α) := nofun
theorem Quiet.done {a : α} : Quiet marked (done a : Traced ε x α) := nofun
theorem Quiet.raise {e : x} : Quiet marked (raise e : Traced ε x α) := nofun
theorem Quiet.quietly {outcome : Except x α} : Quiet marked (quietly outcome : Traced ε x α) := nofun
theorem Quiet.unlessRaised {raised : Option x} : Quiet marked (unlessRaised raised : Traced ε x Unit) := by
  cases raised <;> exact nofun

theorem Quiet.emit {e : ε} (plain : ¬ marked e) : Quiet marked (emit e : Traced ε x Unit) := by
  intro event inside
  rw [List.mem_singleton.mp inside]
  exact plain

theorem Quiet.after {t : Traced ε x α} {u : Traced ε x β} (quiet : t.Quiet marked) (later : u.Quiet marked)
    {outcome : Except x γ} : Quiet marked ⟨t.trace ++ u.trace,outcome⟩ := by
  intro event inside
  rcases List.mem_append.mp inside with early | late
  · exact quiet event early
  · exact later event late

theorem Quiet.attempt (quiet : t.Quiet marked) (done : ∀ a, t.outcome = .ok a → (rest a).Quiet marked)
    (raised : ∀ e, t.outcome = .error e → (handler e).Quiet marked) : (t.attempt rest handler).Quiet marked := by
  unfold Traced.attempt
  split
  · rename_i a same
    exact quiet.after (done a same)
  · rename_i e same
    exact quiet.after (raised e same)

theorem Quiet.bind (quiet : t.Quiet marked) (done : ∀ a, t.outcome = .ok a → (rest a).Quiet marked) :
    (t.bind rest).Quiet marked := quiet.attempt done fun _ _ => .raise

theorem Quiet.ensuring {cleanup : Traced ε x Unit} (quiet : t.Quiet marked) (clean : cleanup.Quiet marked) :
    (t.ensuring cleanup).Quiet marked := quiet.after clean

theorem Mild.done {a : α} : Mild kind (done a : Traced ε x α) := nofun
theorem Mild.emit {e : ε} : Mild kind (emit e : Traced ε x Unit) := nofun
theorem Mild.raise {e : x} (other : ¬ kind e) : Mild kind (raise e : Traced ε x α) := by
  intro e' same
  cases same
  exact other

theorem Mild.attempt (done : ∀ a, t.outcome = .ok a → (rest a).Mild kind)
    (raised : ∀ e, t.outcome = .error e → (handler e).Mild kind) : (t.attempt rest handler).Mild kind := by
  unfold Traced.attempt
  split
  · rename_i a same
    exact done a same
  · rename_i e same
    exact raised e same

theorem Mild.bind (mild : t.Mild kind) (done : ∀ a, t.outcome = .ok a → (rest a).Mild kind) : (t.bind rest).Mild kind :=
  .attempt done fun e same => .raise (mild e same)

theorem Mild.ensuring {cleanup : Traced ε x Unit} (mild : t.Mild kind) (clean : cleanup.Mild kind) :
    (t.ensuring cleanup).Mild kind := by
  intro e raised
  unfold Traced.ensuring at raised
  split at raised
  · exact mild e raised
  · rename_i e' same
    cases raised
    exact clean e same

theorem Honest.of_quiet (quiet : t.Quiet marked) : t.Honest marked kind := fun _ _ _ => quiet
theorem Honest.of_mild (mild : t.Mild kind) : t.Honest marked kind := fun e raised bad => absurd bad (mild e raised)

-- What comes after a quiet computation is honest on its own, what comes after another is mild;
-- and a handler may raise the kind only where it handles the kind.
theorem Honest.attempt (honest : t.Honest marked kind)
    (done : ∀ a, t.outcome = .ok a → t.Quiet marked ∧ (rest a).Honest marked kind ∨ (rest a).Mild kind)
    (same : ∀ e, t.outcome = .error e → kind e → (handler e).Honest marked kind)
    (other : ∀ e, t.outcome = .error e → ¬ kind e → (handler e).Mild kind) : (t.attempt rest handler).Honest marked kind := by
  intro e raised bad
  unfold Traced.attempt at raised ⊢
  split at raised
  · rename_i a here
    rcases done a here with ⟨quiet,later⟩ | mild
    · exact quiet.after (later e raised bad)
    · exact absurd bad (mild e raised)
  · rename_i e' here
    by_cases first : kind e'
    · exact (honest e' here first).after (same e' here first e raised bad)
    · exact absurd bad (other e' here first e raised)

theorem Honest.bind_of (honest : t.Honest marked kind)
    (done : ∀ a, t.outcome = .ok a → t.Quiet marked ∧ (rest a).Honest marked kind ∨ (rest a).Mild kind) :
    (t.bind rest).Honest marked kind :=
  honest.attempt done (fun _ _ _ => .of_quiet .raise) fun _ _ other => .raise other

theorem Honest.bind (quiet : t.Quiet marked) (done : ∀ a, t.outcome = .ok a → (rest a).Honest marked kind) :
    (t.bind rest).Honest marked kind :=
  Honest.bind_of (.of_quiet quiet) fun a here => .inl ⟨quiet,done a here⟩

theorem Honest.ensuring {cleanup : Traced ε x Unit} (honest : t.Honest marked kind) (quiet : cleanup.Quiet marked)
    (mild : cleanup.Mild kind) : (t.ensuring cleanup).Honest marked kind := by
  intro e raised bad
  unfold Traced.ensuring at raised
  split at raised
  · exact (honest e raised bad).after quiet
  · rename_i e' same
    cases raised
    exact absurd bad (mild e same)

section Answers
variable {good : α → Prop}

-- What the answer is like, if there is one.
def Yields (good : α → Prop) (t : Traced ε x α) : Prop := ∀ a, t.outcome = .ok a → good a

theorem Yields.done {a : α} (holds : good a) : Yields good (done a : Traced ε x α) := by
  intro b same
  cases same
  exact holds

theorem Yields.raise {e : x} : Yields good (raise e : Traced ε x α) := nofun

theorem Yields.attempt {good : β → Prop} {t : Traced ε x α} {rest : α → Traced ε x β} {handler : x → Traced ε x β}
    (done : ∀ a, t.outcome = .ok a → (rest a).Yields good) (raised : ∀ e, t.outcome = .error e → (handler e).Yields good) :
    (t.attempt rest handler).Yields good := by
  unfold Traced.attempt
  split
  · rename_i a same
    exact done a same
  · rename_i e same
    exact raised e same

theorem Yields.bind {good : β → Prop} {t : Traced ε x α} {rest : α → Traced ε x β}
    (done : ∀ a, t.outcome = .ok a → (rest a).Yields good) : (t.bind rest).Yields good := .attempt done fun _ _ => .raise

theorem Yields.ensuring {t : Traced ε x α} {cleanup : Traced ε x Unit} (yields : t.Yields good) :
    (t.ensuring cleanup).Yields good := by
  intro a ended
  unfold Traced.ensuring at ended
  split at ended
  · exact yields a ended
  · cases ended

theorem bind_assoc {t : Traced ε x α} {f : α → Traced ε x β} {g : β → Traced ε x γ} :
    (t.bind f).bind g = t.bind fun a => (f a).bind g := by
  unfold Traced.bind Traced.attempt
  cases t.outcome with
  | error e => simp [raise]
  | ok a =>
    simp only
    cases (f a).outcome with
    | error e => simp [raise]
    | ok b => simp

end Answers

end AgentSideCar.Traced
