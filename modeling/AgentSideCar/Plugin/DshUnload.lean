import AgentSideCar.Plugin.DshInject

namespace AgentSideCar.DshInject
open Runs
variable {γ : Type} [DecidableEq γ]
set_option linter.unusedSectionVars false

section Lapses
variable (host : Host γ) (s : DshInjectExecutor γ) (call : Call)

-- agents.get finds no live agent of the session, or throws.
def unattended : Bool := (host.live call.sessionId).join.isNone

-- The agents.resume that a suspended execute waits for has failed under a generation still mounted, or
-- has come too late with a handle that could not be disposed of.
def refused : Await γ → Bool
  | .slot (.operation op g) _ => (s.operations[op]?).any fun o => match o.stage with
    | .settled .retireFailed => true
    | .settled (.wait (.failed _)) => host.generation = some g
    | _ => false
  | _ => false

-- The generation under which a suspended execute has been handed an agent or leave to resume.
def handed : Await γ → Option γ
  | .slot (.answered (.agent _)) g => some g
  | .slot (.operation op g) _ => (s.operations[op]?).bind fun o => match o.stage with
    | .settled (.wait (.agent _)) => some g
    | _ => none
  | .checked (.ready g) => some g
  | .checked (.live _ g) => some g
  | _ => none

-- A suspended execute has nothing left to act on: the resume it waits for has failed, or its session
-- has no live agent and what it has been handed is of a generation no longer mounted.
def lapsed (await : Await γ) : Bool :=
  refused host s await || unattended host call && (handed s await).all fun g => host.generation ≠ some g && 0 < call.remaining

end Lapses

-- dispose finds no fulfilled slot whose generation is being cleaned up, and from then on an execute
-- is woken only when the host has left it nothing to act on.
def still (s : DshInjectExecutor γ) (step : Step γ) : Bool :=
  orderly s step && (!s.disposePromise.isSome || match step.event with
    | .woken i => (s.calls[i]?).all fun c => c.1.method = .preflight || lapsed step.host s c.1 c.2
    | _ => true)

-- The step calls steer or followup: were the splice not to throw, it would say delivered.
def Sends (inspects : Bool) (s : DshInjectExecutor γ) (step : Step γ) : Prop :=
  ∃ s', advance inspects s {step with host := {step.host with throws := false}} = some s' ∧
    .execute .delivered ∈ s'.answers.drop s.answers.length

-- A step that starts no resume, sends no message and makes no slot.
structure Silent (s s' : DshInjectExecutor γ) : Prop where
  operations : s'.operations.length = s.operations.length
  answers : ∃ added, s'.answers = s.answers ++ added ∧ Answer.execute .delivered ∉ added
  slots : ∀ sessionId, s.slots.get sessionId = none → s'.slots.get sessionId = none

variable {s s' : DshInjectExecutor γ} {sessionId : String} {slot : ResumeSlot γ} {g : γ} {host : Host γ} {inspects : Bool}
  {call : Call}

theorem Silent.trans {t : DshInjectExecutor γ} (first : Silent s s') (second : Silent s' t) : Silent s t := by
  obtain ⟨early,said,quiet⟩ := first.answers
  obtain ⟨late,then',silent⟩ := second.answers
  refine ⟨second.operations.trans first.operations,⟨early ++ late,by rw [then',said,List.append_assoc],fun inside => ?_⟩,
    fun key none' => second.slots key (first.slots key none')⟩
  exact (List.mem_append.mp inside).elim quiet silent

theorem Silent.same (operations : s'.operations.length = s.operations.length) (answers : s'.answers = s.answers)
    (slots : ∀ sessionId, s.slots.get sessionId = none → s'.slots.get sessionId = none) : Silent s s' :=
  ⟨operations,⟨[],by rw [answers,List.append_nil],List.not_mem_nil⟩,slots⟩

theorem silent_refl : Silent s s := .same rfl rfl fun _ => id

theorem answer_silent {a : Answer} (other : a ≠ .execute .delivered) : Silent s (answer s a) :=
  ⟨rfl,⟨[a],rfl,fun inside => other (List.mem_singleton.mp inside).symm⟩,fun _ => id⟩

theorem suspend_silent (call : Call) (await : Await γ) : Silent s (suspend s call await) := .same rfl rfl fun _ => id

theorem entomb_silent {source : Source} (here : s.slots.get sessionId = some slot) :
    Silent s (entomb s sessionId g source).1 := by
  refine .same rfl rfl fun key none' => ?_
  show (s.slots.set sessionId _).get key = none
  rw [Dict.get_set,if_neg]
  · exact none'
  · rintro rfl
    cases here.symm.trans none'

theorem beginRetirement_silent (here : s.slots.get sessionId = some slot) : Silent s (beginRetirement s sessionId slot).1 := by
  unfold beginRetirement
  split
  · exact silent_refl
  · exact silent_refl
  · exact entomb_silent here
  · have moved : ∀ h, Silent s (disposeHandle s h) := fun _ => .same rfl rfl fun _ => id
    exact (moved _).trans (entomb_silent (s := disposeHandle s _) here)

theorem retireAll_silent (l : List (String × ResumeSlot γ)) (listed : ∀ e ∈ l, s.slots.get e.1 = some e.2)
    (unique : (l.map Prod.fst).Nodup) : Silent s (retireAll l s).1 := by
  induction l generalizing s with
  | nil => exact silent_refl
  | cons e rest ih =>
    obtain ⟨fresh,unique⟩ := List.nodup_cons.mp unique
    refine (beginRetirement_silent (listed e List.mem_cons_self)).trans (ih (fun f inside => ?_) unique)
    rw [beginRetirement_get fun same => fresh (List.mem_map.mpr ⟨f,inside,same⟩)]
    exact listed f (List.mem_cons_of_mem _ inside)

theorem invalidateGeneration_silent (g : γ) : Silent s (invalidateGeneration s g) := by
  unfold invalidateGeneration
  split
  · exact silent_refl
  · obtain ⟨listed,unique⟩ := owned_listed (s := s) g
    exact (retireAll_silent _ listed unique).trans (.same rfl rfl fun _ => id)

theorem beginRetirement_present {key : String} (present : s.slots.get key ≠ none) :
    (beginRetirement s sessionId slot).1.slots.get key ≠ none := by
  have set : ∀ value, (s.slots.set sessionId value).get key ≠ none := by
    intro value
    rw [Dict.get_set]
    split
    · simp
    · exact present
  unfold beginRetirement
  split
  · exact present
  · exact present
  · exact set _
  · exact set _

theorem retireAll_present {key : String} (l : List (String × ResumeSlot γ)) (present : s.slots.get key ≠ none) :
    (retireAll l s).1.slots.get key ≠ none := by
  induction l generalizing s with
  | nil => exact present
  | cons e rest ih => exact ih (beginRetirement_present present)

theorem usableSlot_silent (host : Host γ) (sessionId : String) : Silent s (usableSlot s host sessionId).1 := by
  unfold usableSlot
  split
  · exact silent_refl
  · exact silent_refl
  · rename_i slot _ found
    split
    · exact invalidateGeneration_silent slot.generation
    split
    · split
      · exact silent_refl
      · exact beginRetirement_silent found
    · exact silent_refl

theorem usableSlot_none (host : Host γ) (free : (usableSlot s host sessionId).2 = none) :
    s.slots.get sessionId = none ∧ (usableSlot s host sessionId).1 = s := by
  unfold usableSlot at free ⊢
  split at free
  · rename_i none'
    rw [none']
    exact ⟨rfl,rfl⟩
  · cases free
  · rename_i slot _ found
    have present : s.slots.get sessionId ≠ none := by rw [found]; simp
    split at free
    · have kept : (invalidateGeneration s slot.generation).slots.get sessionId ≠ none := by
        unfold invalidateGeneration
        split
        · exact present
        · exact retireAll_present _ present
      exact absurd free kept
    · split at free
      · split at free
        · cases free
        · exact absurd free (beginRetirement_present present)
      · cases free

theorem deliver_silent (host : Host γ) : Silent s (deliver host none s) := answer_silent (by simp)

-- What is known of an executor on which dispose has been called.
structure Disposed (s : DshInjectExecutor γ) : Prop where
  unloading : s.unloading = true
  away : ∀ sessionId h agent g, s.slots.get sessionId ≠ some (.fulfilled h agent g)

theorem select_silent (disposed : Disposed s) (alone : unattended host call = true) (last : Option Nat)
    (left : last = none ∨ 0 < call.remaining) : Silent s (select inspects host call call.remaining last s) := by
  cases remaining : call.remaining with
  | zero =>
    have none' : last = none := left.resolve_right (by omega)
    subst none'
    exact deliver_silent host
  | succ remaining =>
    have used := usableSlot_silent (s := s) host call.sessionId
    simp only [select]
    split
    · rename_i h agent g found
      have there := (usableSlot_get host call.sessionId).trans found
      exact absurd ((usableSlot_moves host call.sessionId).fewer _ _ _ _ there) (disposed.away _ _ _ _)
    · exact used.trans (suspend_silent _ _)
    · split
      · exact used.trans (answer_silent (by simp))
      · rename_i live
        simp [unattended,live] at alone
      · exact used.trans (suspend_silent _ _)

theorem conclude_silent (disposed : Disposed s) (alone : unattended host call = true) (agent : Nat)
    (departed : host.generation ≠ some g) (left : 0 < call.remaining) :
    Silent s (conclude host (select inspects host call call.remaining) call (some agent) (some g) s) := by
  unfold conclude
  split
  · exact answer_silent (by simp)
  · rw [if_pos (by simp [Ne.symm departed])]
    exact select_silent disposed alone _ (.inr left)

theorem slotAnswered_silent (disposed : Disposed s) {outcome : WaitOutcome} (idle : (∃ errorCode, outcome = .failed errorCode) ∨
      unattended host call = true ∧ ∀ agent, outcome = .agent agent → host.generation ≠ some g ∧ 0 < call.remaining) :
    Silent s (slotAnswered inspects host call g outcome s) := by
  rcases idle with ⟨errorCode,rfl⟩ | ⟨alone,unhanded⟩
  · exact answer_silent (by simp)
  · cases outcome with
    | agent agent =>
      obtain ⟨departed,left⟩ := unhanded agent rfl
      exact conclude_silent disposed alone agent departed left
    | failed errorCode => exact answer_silent (by simp)
    | timeout => exact answer_silent (by simp)
    | stale => exact select_silent disposed alone none (.inl rfl)

theorem resume_silent (disposed : Disposed s) (alone : unattended host call = true) (departed : host.generation ≠ some g) :
    Silent s (resume inspects host call g s) := by
  rw [resume,if_pos departed]
  exact select_silent disposed alone none (.inl rfl)

theorem coldChecked_silent (disposed : Disposed s) (alone : unattended host call = true) (check : ColdCheck γ)
    (idle : ∀ g, handed s (.checked check) = some g → host.generation ≠ some g ∧ 0 < call.remaining) :
    Silent s (coldChecked inspects host call check s) := by
  have used := usableSlot_silent (s := s) host call.sessionId
  unfold coldChecked
  simp only
  split
  · exact used.trans (suspend_silent _ _)
  all_goals
    rename_i free
    obtain ⟨_,same⟩ := usableSlot_none host free
    rw [same]
  · obtain ⟨departed,left⟩ := idle _ rfl
    exact conclude_silent disposed alone _ departed left
  · split
    · exact answer_silent (by simp)
    · split
      · exact answer_silent (by simp)
      · rename_i live
        simp [unattended,live] at alone
      · exact answer_silent (by simp)
  · have departed := (idle _ rfl).1
    split
    · exact resume_silent disposed alone departed
    · split
      · exact answer_silent (by simp)
      · rename_i live
        simp [unattended,live] at alone
      · exact resume_silent disposed alone departed

theorem preflightCold_silent : Silent s (preflightCold inspects host call s) := by
  unfold preflightCold
  split
  · exact answer_silent (by simp)
  · exact answer_silent (by simp)
  · exact suspend_silent _ _

theorem preflightChecked_silent (check : ColdCheck γ) : Silent s (preflightChecked host call check s) := by
  unfold preflightChecked
  simp only
  split
  · exact answer_silent (by simp)
  split
  · exact answer_silent (by split <;> simp)
  split
  · exact answer_silent (by simp)
  · exact answer_silent (by simp)
  · exact answer_silent (by split <;> simp)

theorem preflightAnswered_silent (outcome : WaitOutcome) : Silent s (preflightAnswered inspects host call outcome s) := by
  unfold preflightAnswered
  split
  · exact answer_silent (by simp)
  · exact answer_silent (by simp)
  · exact preflightCold_silent

theorem settleOperation_silent (op : Nat) (stage : Stage) : Silent s (settleOperation s op stage) :=
  .same (List.length_modify _ _ _) rfl fun _ => id

theorem erased_silent (sessionId : String) : Silent s {s with slots := s.slots.erase sessionId} := by
  refine .same rfl rfl fun key none' => ?_
  show (s.slots.erase sessionId).get key = none
  rw [Dict.get_erase]
  split
  · rfl
  · exact none'

theorem retirementSettles_silent {t : Nat} {r : Retirement} (result : RetirementResult) : Silent s (retirementSettles s t r result) := by
  have marked : Silent s {s with retirements := s.retirements.set t {r with result := some result}} := .same rfl rfl fun _ => id
  unfold retirementSettles
  simp only
  split
  · split
    · exact marked.trans (erased_silent _)
    · exact marked
  · exact marked

theorem leaveCall_silent (i : Nat) : Silent s (leaveCall i s) := .same rfl rfl fun _ => id
theorem leaveCall_disposed (disposed : Disposed s) (i : Nat) : Disposed (leaveCall i s) := ⟨disposed.unloading,disposed.away⟩

theorem lapsed_wait {wait : SlotWait γ} {outcome : WaitOutcome} (idle : lapsed host s call (.slot wait g) = true)
    (came : waited host s wait = some outcome) : (∃ errorCode, outcome = .failed errorCode) ∨
      unattended host call = true ∧ ∀ agent, outcome = .agent agent → host.generation ≠ some g ∧ 0 < call.remaining := by
  cases wait with
  | settlement t =>
    obtain ⟨r,_,settled⟩ := Option.bind_eq_some_iff.mp came
    obtain ⟨result,_,rfl⟩ := Option.map_eq_some_iff.mp settled
    split
    · exact .inl ⟨_,rfl⟩
    · exact .inr ⟨by simpa [lapsed,refused,handed] using idle,nofun⟩
  | answered outcome' =>
    cases Option.some.inj came
    cases outcome with
    | agent agent =>
      have gone : unattended host call = true ∧ host.generation ≠ some g ∧ 0 < call.remaining := by
        simpa [lapsed,refused,handed] using idle
      exact .inr ⟨gone.1,fun _ _ => gone.2⟩
    | failed errorCode => exact .inl ⟨errorCode,rfl⟩
    | timeout => exact .inr ⟨by simpa [lapsed,refused,handed] using idle,nofun⟩
    | stale => exact .inr ⟨by simpa [lapsed,refused,handed] using idle,nofun⟩
  | operation op g' =>
    obtain ⟨o,found,settled⟩ := Option.bind_eq_some_iff.mp came
    split at settled
    · cases settled
      exact .inl ⟨_,rfl⟩
    · rename_i outcome' stage
      cases Option.some.inj settled
      cases outcome' with
      | agent agent =>
        have gone : unattended host call = true ∧ host.generation ≠ some g' ∧ 0 < call.remaining := by
          simpa [lapsed,refused,handed,found,stage] using idle
        rw [if_pos gone.2.1]
        exact .inr ⟨gone.1,nofun⟩
      | failed errorCode =>
        split
        · rename_i departed
          exact .inr ⟨by simpa [lapsed,refused,handed,found,stage,departed] using idle,nofun⟩
        · exact .inl ⟨errorCode,rfl⟩
      | timeout =>
        have alone : unattended host call = true := by simpa [lapsed,refused,handed,found,stage] using idle
        exact .inr ⟨alone,by split <;> nofun⟩
      | stale =>
        have alone : unattended host call = true := by simpa [lapsed,refused,handed,found,stage] using idle
        exact .inr ⟨alone,by split <;> nofun⟩
    · cases settled

theorem woken_silent (disposed : Disposed s) (await : Await γ) (idle : call.method = .preflight ∨ lapsed host s call await = true)
    (stepped : woken inspects host call await s = some s') : Silent s s' := by
  cases await with
  | inspection remaining g => cases stepped
  | slot wait g =>
    obtain ⟨outcome,came,rfl⟩ := Option.map_eq_some_iff.mp stepped
    unfold proceed
    cases method : call.method with
    | preflight => exact preflightAnswered_silent outcome
    | execute => exact slotAnswered_silent disposed (lapsed_wait (idle.resolve_left (by simp [method])) came)
  | checked check =>
    unfold woken at stepped
    cases method : call.method with
    | preflight =>
      rw [method] at stepped
      cases Option.some.inj stepped
      exact preflightChecked_silent check
    | execute =>
      rw [method] at stepped
      cases Option.some.inj stepped
      have idle := idle.resolve_left (by simp [method])
      simp only [lapsed,refused,Bool.false_or,Bool.and_eq_true] at idle
      refine coldChecked_silent disposed idle.1 check fun g there => ?_
      simpa [there] using idle.2

-- Once dispose has been called, a step that the condition allows starts, sends and slots nothing.
theorem advance_silent {step : Step γ} (disposed : Disposed s) (disposing : s.disposePromise.isSome = true)
    (calm : still s step = true) (stepped : advance inspects s step = some s') : Silent s s' := by
  obtain ⟨event,host⟩ := step
  cases event with
  | execute sessionId =>
    cases Option.some.inj stepped
    rw [execute,if_pos disposed.unloading]
    exact answer_silent (by simp)
  | preflight sessionId =>
    cases Option.some.inj stepped
    rw [preflight,if_pos disposed.unloading]
    exact answer_silent (by simp)
  | invalidate g =>
    cases Option.some.inj stepped
    exact invalidateGeneration_silent g
  | dispose =>
    cases Option.some.inj stepped
    rw [disposeSlots,if_pos disposing]
    exact silent_refl
  | resumed op agent =>
    obtain ⟨o,_,there⟩ := Option.bind_eq_some_iff.mp stepped
    split at there
    · cases Option.some.inj there
      rw [resumed,if_pos disposed.unloading]
      have taken : Silent s {s with handles := s.handles ++ [⟨o.sessionId,agent,1⟩]} := .same rfl rfl fun _ => id
      exact taken.trans (settleOperation_silent op _)
    · cases there
  | rejected op guarded =>
    obtain ⟨o,_,there⟩ := Option.bind_eq_some_iff.mp stepped
    split at there
    · cases Option.some.inj there
      unfold rejected
      refine Silent.trans ?_ (settleOperation_silent op _)
      split
      · exact erased_silent _
      · exact silent_refl
    · cases there
  | reinspected op inspected =>
    obtain ⟨o,_,there⟩ := Option.bind_eq_some_iff.mp stepped
    split at there
    · cases Option.some.inj there
      exact settleOperation_silent op _
    · cases there
  | lateDisposed op disposed =>
    obtain ⟨o,_,there⟩ := Option.bind_eq_some_iff.mp stepped
    split at there
    · cases Option.some.inj there
      exact settleOperation_silent op _
    · cases there
  | retired t disposed =>
    obtain ⟨r,_,there⟩ := Option.bind_eq_some_iff.mp stepped
    split at there
    · cases there
    split at there
    · cases Option.some.inj there
      exact retirementSettles_silent _
    · obtain ⟨o,_,there⟩ := Option.bind_eq_some_iff.mp there
      split at there
      · cases Option.some.inj there
        exact retirementSettles_silent _
      · cases there
  | cleaned g =>
    obtain ⟨ts,_,there⟩ := Option.bind_eq_some_iff.mp stepped
    split at there
    · cases Option.some.inj there
      exact .same rfl rfl fun _ => id
    · cases there
  | cleared =>
    obtain ⟨ts,_,there⟩ := Option.bind_eq_some_iff.mp stepped
    split at there
    · cases Option.some.inj there
      exact .same rfl rfl fun _ _ => rfl
    · cases there
  | woken i =>
    obtain ⟨c,found,there⟩ := Option.bind_eq_some_iff.mp stepped
    refine (leaveCall_silent i).trans (woken_silent (leaveCall_disposed disposed i) c.2 ?_ there)
    simp only [still,disposing,Bool.not_true,Bool.false_or,found,Option.all_some,Bool.and_eq_true,Bool.or_eq_true,
      decide_eq_true_eq] at calm
    exact calm.2
  | expires i =>
    obtain ⟨c,_,there⟩ := Option.bind_eq_some_iff.mp stepped
    split at there
    · cases there
    · cases Option.some.inj there
      refine (leaveCall_silent i).trans ?_
      unfold proceed
      split
      · exact answer_silent (by simp)
      · exact answer_silent (by simp)
    · cases there
  | inspected i inspected =>
    obtain ⟨c,_,there⟩ := Option.bind_eq_some_iff.mp stepped
    split at there
    · cases Option.some.inj there
      exact (leaveCall_silent i).trans (suspend_silent _ _)
    · cases there

theorem still_orderly {step : Step γ} (calm : still s step = true) : orderly s step = true := (Bool.and_eq_true _ _ ▸ calm).1

theorem advance_disposing {step : Step γ} (steady : Steady s) (disposing : s.disposePromise.isSome = true)
    (stepped : advance inspects s step = some s') : s'.disposePromise.isSome = true := by
  obtain ⟨event,host⟩ := step
  have kept : ∀ t : DshInjectExecutor γ, Moves s t → t.disposePromise.isSome = true := fun t moves => by
    rw [moves.disposePromise]
    exact disposing
  cases event with
  | execute sessionId =>
    cases Option.some.inj stepped
    exact kept _ (execute_moves sessionId)
  | preflight sessionId =>
    cases Option.some.inj stepped
    exact kept _ (preflight_moves sessionId)
  | invalidate g =>
    cases Option.some.inj stepped
    exact kept _ (invalidateGeneration_moves g)
  | dispose =>
    cases Option.some.inj stepped
    rw [disposeSlots,if_pos disposing]
    exact disposing
  | resumed op agent =>
    obtain ⟨o,_,there⟩ := Option.bind_eq_some_iff.mp stepped
    split at there
    · cases Option.some.inj there
      rw [resumed,if_pos (steady.2 disposing).1]
      exact disposing
    · cases there
  | rejected op guarded =>
    obtain ⟨o,_,there⟩ := Option.bind_eq_some_iff.mp stepped
    split at there
    · cases Option.some.inj there
      unfold rejected settleOperation
      split <;> exact disposing
    · cases there
  | reinspected op inspected =>
    obtain ⟨o,_,there⟩ := Option.bind_eq_some_iff.mp stepped
    split at there
    · cases Option.some.inj there
      exact disposing
    · cases there
  | lateDisposed op disposed =>
    obtain ⟨o,_,there⟩ := Option.bind_eq_some_iff.mp stepped
    split at there
    · cases Option.some.inj there
      exact disposing
    · cases there
  | retired t disposed =>
    have settles : ∀ (r : Retirement) result, (retirementSettles s t r result).disposePromise.isSome = true := by
      intro r result
      unfold retirementSettles
      simp only
      split
      · split <;> exact disposing
      · exact disposing
    obtain ⟨r,_,there⟩ := Option.bind_eq_some_iff.mp stepped
    split at there
    · cases there
    split at there
    · cases Option.some.inj there
      exact settles _ _
    · obtain ⟨o,_,there⟩ := Option.bind_eq_some_iff.mp there
      split at there
      · cases Option.some.inj there
        exact settles _ _
      · cases there
  | cleaned g =>
    obtain ⟨ts,_,there⟩ := Option.bind_eq_some_iff.mp stepped
    split at there
    · cases Option.some.inj there
      exact disposing
    · cases there
  | cleared =>
    obtain ⟨ts,_,there⟩ := Option.bind_eq_some_iff.mp stepped
    split at there
    · cases Option.some.inj there
      exact disposing
    · cases there
  | woken i =>
    obtain ⟨c,_,there⟩ := Option.bind_eq_some_iff.mp stepped
    exact kept _ ((leaveCall_moves i).trans (woken_moves c.1 c.2 there))
  | expires i =>
    obtain ⟨c,_,there⟩ := Option.bind_eq_some_iff.mp stepped
    split at there
    · cases there
    · cases Option.some.inj there
      exact kept _ ((leaveCall_moves i).trans (proceed_moves c.1 _ .timeout))
    · cases there
  | inspected i inspected =>
    obtain ⟨c,_,there⟩ := Option.bind_eq_some_iff.mp stepped
    split at there
    · cases Option.some.inj there
      exact disposing
    · cases there

theorem silent_sends_not {step : Step γ} (disposed : Disposed s) (disposing : s.disposePromise.isSome = true)
    (calm : still s step = true) : ¬ Sends inspects s step := by
  rintro ⟨t,stepped,said⟩
  have calmer : still s {step with host := {step.host with throws := false}} = true := calm
  obtain ⟨added,same,quiet⟩ := (advance_silent disposed disposing calmer stepped).answers
  rw [same,List.drop_left] at said
  exact quiet said

abbrev StillRun (inspects : Bool) : DshInjectExecutor γ → List (Step γ) → DshInjectExecutor γ → Prop :=
  Run (advance inspects) fun s step => still s step = true

theorem still_run_steady {steps : List (Step γ)} (steady : Steady s) (path : StillRun inspects s steps s') : Steady s' :=
  path.invariant Steady steady fun _ step _ steady calm stepped => advance_steady step steady (still_orderly calm) stepped

-- The promise of dispose has resolved.
structure Cleared (s : DshInjectExecutor γ) : Prop where
  steady : Steady s
  disposing : s.disposePromise.isSome = true
  slots : ∀ sessionId, s.slots.get sessionId = none

theorem Steady.disposed (steady : Steady s) (disposing : s.disposePromise.isSome = true) : Disposed s :=
  ⟨(steady.2 disposing).1,(steady.2 disposing).2⟩

theorem Cleared.run {rest : List (Step γ)} (cleared : Cleared s) (path : StillRun inspects s rest s') : Cleared s' := by
  refine path.invariant Cleared cleared fun t step t' cleared calm stepped => ?_
  have silent := advance_silent (cleared.steady.disposed cleared.disposing) cleared.disposing calm stepped
  exact ⟨advance_steady step cleared.steady (still_orderly calm) stepped,
    advance_disposing cleared.steady cleared.disposing stepped,fun key => silent.slots key (cleared.slots key)⟩

theorem Cleared.disposals (cleared : Cleared s) : ∀ r ∈ s.handles, r.disposals = 1 := by
  intro r inside
  obtain ⟨h,there⟩ := List.getElem?_of_mem inside
  rcases cleared.steady.1.held h r there with one | ⟨_,agent,g,owns⟩
  · exact one
  · cases (cleared.slots _).symm.trans owns

-- Two sessions are resumed and spoken to; their slots are retired by dispose itself. A third is being
-- resumed and a fourth inspected when it is called, and the generation departs before the inspection ends.
def unloadRun : List (Step Nat) := delivers "a" 0 0 5 ++ delivers "b" 1 0 6 ++
  [⟨.execute "c",mounted⟩,⟨.inspected 0 (.value .absent),mounted⟩,⟨.woken 0,mounted⟩,⟨.execute "d",mounted⟩,⟨.dispose,mounted⟩,
    ⟨.execute "a",mounted⟩,⟨.retired 0 true,mounted⟩,⟨.retired 1 true,mounted⟩,⟨.resumed 2 7,mounted⟩,⟨.lateDisposed 2 true,mounted⟩,
    ⟨.retired 2 true,mounted⟩,⟨.woken 0,mounted⟩,⟨.inspected 0 (.value .absent),unmounted⟩,⟨.woken 0,unmounted⟩]

-- dispose is called while an execute inspects the stored session.
def inspectedLate : List (Step Nat) := [⟨.execute "a",mounted⟩,⟨.dispose,mounted⟩,⟨.inspected 0 (.value .absent),mounted⟩]

def visited : Host Nat := {mounted with live := fun _ => some (some 7)}

end AgentSideCar.DshInject
