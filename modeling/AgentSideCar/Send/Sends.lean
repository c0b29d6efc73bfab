import AgentSideCar.Audit.Cuts
import AgentSideCar.Send.Receipts

namespace AgentSideCar.Send
open Audit (AuditReceipt Terminal)

-- One call of execute_send: how what it calls behaves, its clock readings, and what stops
-- the reservation or the terminal, before or after any of its writes, with what is raised then.
structure Sent where
  world : World
  allowWrite : Bool
  asked : Audit.Clock
  reserving : Option (Audit.Disk × Raised)
  told : Audit.Clock
  appending : Option (Audit.Disk × Raised)

def stopped (attempt : Audit.Attempt α) (d : Audit.Disk) (stop : Option (Audit.Disk × Raised)) : Option (Audit.Disk × Except Raised α) :=
  match stop with
  | none => some (attempt.after,attempt.outcome.mapError (.audit · none))
  | some (left,e) => if left = d ∨ left ∈ attempt.during.map Prod.snd then some (left,.error e) else none

-- The audit's two answers, in the place that a run takes them from.
def World.answered (w : World) (reply : Except Raised (Option AuditReceipt)) : World :=
  {w with
    check := fun c => match c with
      | .reserve => match reply with
        | .ok _ => none
        | .error e => some e
      | c => w.check c
    replay := match reply with
      | .ok replay => replay
      | .error _ => none}

def World.heard (w : World) (reply : Except Raised AuditReceipt) : World :=
  {w with appended := match reply with
    | .ok _ => none
    | .error e => some e}

def kimiChecks (plan : SendPlan) : List Check :=
  if plan.transport = "kimi_acp" then [.kimiRuntime,.bindKimi,.probeVersion,.probeInitialize] else []

-- What is checked before the audit is asked.
def firstChecks (plan : SendPlan) : List Check :=
  [.timeout,.plan] ++ ([.refresher] ++ kimiChecks plan ++ [.requestId,.identity,.openNamespace])

def asks (w : World) (plan : SendPlan) (allowWrite : Bool) : Bool :=
  allowWrite && (firstChecks plan).all fun c => (w.check c).isNone

def terminals (trace : List Effect) : List Terminal := trace.filterMap fun
  | .terminal t => some t
  | _ => none

section Store
variable (space : Audit.AuditNamespace) (request : String) (plan : SendPlan) (identity : Audit.AuditIdentity)

def World.of (w : World) : World := {w with requestId := request}

def send (d : Audit.Disk) (s : Sent) : Option (Audit.Disk × Run SendResult) :=
  let w := s.world.of request
  if asks w plan s.allowWrite then do
    let (reserved,reply) ← stopped (Audit.reserve space request identity s.asked d) d s.reserving
    let w := w.answered reply
    match terminals (executeSend w plan s.allowWrite).trace with
    | [] => some (reserved,executeSend w plan s.allowWrite)
    | t :: _ => do
      let (settled,reply) ← stopped (Audit.appendTerminal space request identity s.told t reserved) reserved s.appending
      some (settled,executeSend (w.heard reply) plan s.allowWrite)
  else some (d,executeSend w plan s.allowWrite)

-- The call comes to the native path: no step before it raises, and there is nothing to replay.
def Enters (d : Audit.Disk) (s : Sent) : Prop :=
  asks (s.world.of request) plan s.allowWrite = true ∧ s.world.check .downgradeMarker = none ∧
    ∃ reserved, stopped (Audit.reserve space request identity s.asked d) d s.reserving = some (reserved,.ok none)

-- What the native path of a call answers or raises.
def native (s : Sent) : Except Raised SendResult := (runNativeSend ((s.world.of request).answered (.ok none)) plan).outcome

end Store

-- A list of checks, and what follows them.
def passing (w : World) (checks : List Check) (rest : Run α) : Run α := checks.foldr (fun c later => checked w c >>= fun _ => later) rest

theorem passing_answers (w : World) (checks : List Check) (rest : Run α) :
    (∀ c ∈ checks, w.check c = none) ∧ passing w checks rest = rest ∨
      (∃ c ∈ checks, w.check c ≠ none) ∧ ∃ e, passing w checks rest = .raise e := by
  induction checks with
  | nil => exact .inl ⟨nofun,rfl⟩
  | cons c checks ih =>
    have step : passing w (c :: checks) rest = (checked w c).bind fun _ => passing w checks rest := rfl
    cases raises : w.check c with
    | some e => exact .inr ⟨⟨c,List.mem_cons_self,by rw [raises]; exact nofun⟩,e,by rw [step,checked,raises]; rfl⟩
    | none =>
      have passed : passing w (c :: checks) rest = passing w checks rest := by rw [step,checked,raises]; rfl
      rw [passed]
      rcases ih with ⟨all,same⟩ | ⟨⟨c',inside,raised⟩,e,same⟩
      · exact .inl ⟨List.forall_mem_cons.mpr ⟨raises,all⟩,same⟩
      · exact .inr ⟨⟨c',List.mem_cons_of_mem _ inside,raised⟩,e,same⟩

theorem passing_append (first second : List Check) (rest : Run α) : passing w (first ++ second) rest = passing w first (passing w second rest) :=
  List.foldr_append

theorem bindKimi_passing (w : World) (plan : SendPlan) (rest : Run α) :
    (bindKimi w plan >>= fun _ => rest) = passing w (kimiChecks plan) rest := by
  unfold bindKimi kimiChecks
  split
  · show Traced.bind (Traced.bind _ fun _ => Traced.bind _ fun _ => Traced.bind _ fun _ => _) _ = _
    simp only [Traced.bind_assoc]
    rfl
  · rfl

theorem slipped_trace (s : Slip) : (slipped w s).trace = [] := by
  unfold slipped
  cases w.slip s <;> rfl

theorem ensuring_trace {t : Run α} (s : Slip) : (t.ensuring (slipped w s)).trace = t.trace := by
  rw [Traced.ensuring,slipped_trace,List.append_nil]

theorem ensuring_ok {t : Run α} {cleanup : Run Unit} (ended : (t.ensuring cleanup).outcome = .ok a) : t.outcome = .ok a := by
  unfold Traced.ensuring at ended
  split at ended
  · exact ended
  · cases ended

theorem handled_trace {t : Run SendResult} : (t.handled auditRaised).trace = t.trace := by
  unfold Traced.handled Traced.attempt
  split
  · exact List.append_nil _
  · unfold auditRaised
    split <;> exact List.append_nil _

theorem handled_ok {t : Run SendResult} (ended : (t.handled auditRaised).outcome = .ok r) : t.outcome = .ok r := by
  unfold Traced.handled Traced.attempt at ended
  split at ended
  · rename_i a done
    exact done.trans ended
  · unfold auditRaised at ended
    split at ended <;> cases ended

-- The run from the audit's answer on.
def openReserved (w : World) (plan : SendPlan) : Run SendResult :=
  Traced.ensuring (do
    (checked w .reserve).ensuring (checked w .downgradeMarker)
    reservedSend w plan) (slipped w .closeNamespace)

-- What is raised before the audit is asked leaves nothing behind; else the run is what follows.
theorem executeSend_asks (w : World) (plan : SendPlan) (allowWrite : Bool) :
    (asks w plan allowWrite = false ∧ (executeSend w plan allowWrite).trace = [] ∧ ∀ r, (executeSend w plan allowWrite).outcome ≠ .ok r) ∨
      (asks w plan allowWrite = true ∧
        executeSend w plan allowWrite = ((openReserved w plan).handled auditRaised).ensuring (slipped w .closeKimi)) := by
  have silent : ∀ {t : Run SendResult}, (∃ e, t = .raise e) → ((t.handled auditRaised).ensuring (slipped w .closeKimi)).trace = [] ∧
      ∀ r, ((t.handled auditRaised).ensuring (slipped w .closeKimi)).outcome ≠ .ok r := by
    rintro t ⟨e,rfl⟩
    exact ⟨by rw [ensuring_trace,handled_trace]; rfl,fun r ended => nomatch handled_ok (ensuring_ok ended)⟩
  have refused : ∀ c ∈ firstChecks plan, w.check c ≠ none → asks w plan allowWrite = false := by
    intro c inside raises
    unfold asks
    rw [Bool.and_eq_false_iff]
    refine .inr (List.all_eq_false.mpr ⟨c,inside,by simpa using raises⟩)
  have whole : executeSend w plan true = passing w [.timeout,.plan] (((passing w ([.refresher] ++ kimiChecks plan ++ [.requestId,.identity,.openNamespace])
      (openReserved w plan)).handled auditRaised).ensuring (slipped w .closeKimi)) := by
    rw [passing_append,passing_append,← bindKimi_passing]
    rfl
  cases allowWrite with
  | false => exact .inl ⟨by simp [asks],rfl,nofun⟩
  | true =>
    rw [whole]
    rcases passing_answers w [.timeout,.plan] _ with ⟨outer,same⟩ | ⟨⟨c,inside,raises⟩,e,same⟩
    · rw [same]
      rcases passing_answers w ([.refresher] ++ kimiChecks plan ++ [.requestId,.identity,.openNamespace]) (openReserved w plan) with
        ⟨inner,same⟩ | ⟨⟨c,inside,raises⟩,e,same⟩
      · refine .inr ⟨?_,by rw [same]⟩
        simp only [asks,Bool.true_and,List.all_eq_true,Option.isNone_iff_eq_none]
        intro c inside
        rcases List.mem_append.mp (inside) with first | later
        · exact outer c first
        · exact inner c later
      · refine .inl ⟨refused c (List.mem_append_right _ inside) raises,?_⟩
        rw [same]
        exact silent ⟨e,rfl⟩
    · refine .inl ⟨refused c (List.mem_append_left _ inside) raises,?_⟩
      rw [same]
      exact ⟨rfl,nofun⟩

-- An effect on the audit.
def Tells : Effect → Prop
  | .terminal _ => True
  | _ => False

theorem quiet_terminals {t : Run α} (quiet : t.Quiet Tells) : terminals t.trace = [] := by
  refine List.filterMap_eq_nil_iff.mpr fun effect inside => ?_
  cases effect with
  | terminal t => exact absurd trivial (quiet _ inside)
  | released => rfl
  | prompt bytes => rfl

theorem checked_untold (c : Check) : (checked w c).Quiet Tells := .unlessRaised
theorem slipped_untold (s : Slip) : (slipped w s).Quiet Tells := .unlessRaised

theorem sendResult_trace (r : SendResult) : (sendResult r).trace = [] := by
  unfold sendResult
  split <;> rfl

theorem sendResult_untold (r : SendResult) : (sendResult r).Quiet Tells := by
  intro effect inside
  rw [sendResult_trace] at inside
  cases inside

theorem finishAcp_untold {x : Exchange} : (finishAcp x phase promptWrite stopReason snag).Quiet Tells := by
  unfold finishAcp
  split <;> exact nofun

theorem writePrompt_untold (x : Exchange) (frame : List UInt8) : (writePrompt x frame).Quiet Tells := by
  unfold writePrompt
  split
  · exact finishAcp_untold
  · refine .bind ?_ fun _ _ => ?_
    · unfold crossing
      split
      · exact .done
      · exact .emit id
    · split
      · exact finishAcp_untold
      · exact finishAcp_untold
      · unfold readResponse
        split <;> exact finishAcp_untold
      · exact finishAcp_untold

theorem beforePrompt_untold : (beforePrompt w).Quiet Tells :=
  .bind (checked_untold _) fun _ _ => .bind (checked_untold _) fun _ _ => .bind (checked_untold _) fun _ _ =>
    .bind (checked_untold _) fun _ _ => .bind (checked_untold _) fun _ _ => checked_untold _

theorem runKimiAcp_untold : (runKimiAcp w.exchange w.frame (beforePrompt w)).Quiet Tells := by
  unfold runKimiAcp
  split
  · exact finishAcp_untold
  · refine .attempt beforePrompt_untold (fun _ _ => writePrompt_untold _ _) fun e _ => ?_
    split
    · exact finishAcp_untold
    · exact .raise

theorem kimiResult_untold (result : KimiAcpResult) : (kimiResult w result).Quiet Tells := by
  refine .bind ?_ fun _ _ => ?_
  · unfold kimiCompleted
    split
    · split
      · exact .done
      · split
        · exact .done
        · exact .raise
    · exact .done
  · split <;> exact sendResult_untold _

theorem runBounded_untold : (runBounded w (revalidateAtSpawn w)).Quiet Tells := by
  unfold runBounded
  split
  · exact .quietly
  · refine .attempt ?_ (fun _ _ => .done) fun _ _ => .bind (slipped_untold _) fun _ _ => .raise
    refine .bind (slipped_untold _) fun _ _ => .bind ?_ fun _ _ => .bind (.emit id) fun _ _ => .bind (slipped_untold _) fun _ _ => .quietly
    exact .bind (checked_untold _) fun _ _ => checked_untold _

theorem completedResult_untold (completed : BoundedProcessResult) : (completedResult w w.refreshed completed).Quiet Tells := by
  refine .bind (slipped_untold _) fun _ _ => ?_
  simp only
  split
  · exact sendResult_untold _
  · split
    · exact sendResult_untold _
    · split <;> exact sendResult_untold _

theorem runnerFailed_untold (e : Raised) : (runnerFailed w w.refreshed e).Quiet Tells := by
  unfold runnerFailed
  split
  · exact .bind (slipped_untold _) fun _ _ => sendResult_untold _
  · exact sendResult_untold _
  · exact sendResult_untold _
  · exact .raise

-- The native path appends nothing to the audit itself.
theorem runNativeSend_untold : (runNativeSend w plan).Quiet Tells := by
  unfold runNativeSend
  split
  · refine .bind (checked_untold _) fun _ _ => .ensuring (.ensuring ?_ (slipped_untold _)) (slipped_untold _)
    refine .bind (checked_untold _) fun _ _ => .bind (checked_untold _) fun _ _ => .bind (checked_untold _) fun _ _ =>
      .bind (checked_untold _) fun _ _ => .bind (checked_untold _) fun _ _ => .bind (checked_untold _) fun _ _ =>
        .bind (checked_untold _) fun _ _ => .bind runKimiAcp_untold fun _ _ => .bind (slipped_untold _) fun _ _ => ?_
    split
    · exact .raise
    · exact kimiResult_untold _
  · refine .bind (checked_untold _) fun _ _ => .ensuring ?_ (slipped_untold _)
    exact .bind (checked_untold _) fun _ _ => .bind (checked_untold _) fun _ _ => .bind (checked_untold _) fun _ _ =>
      .attempt runBounded_untold (fun _ _ => completedResult_untold _) fun _ _ => runnerFailed_untold _

theorem recorded_trace (w : World) (r : SendResult) : (recorded w r).trace = [.terminal (auditTerminal r)] := by
  show [Effect.terminal (auditTerminal r)] ++ _ = _
  cases w.appended with
  | none => rfl
  | some e =>
    simp only
    split
    · rw [sendResult_trace]
      rfl
    · rfl

-- The terminals that come of what the native path answers or raises: one, or none where the
-- exception it raises has no code of its own.
def tells : Except Raised SendResult → List Terminal
  | .ok r => [auditTerminal r]
  | .error e => terminals (nativeFailed e).trace

theorem tells_once (native : Except Raised SendResult) : tells native = [] ∨ ∃ t, tells native = [t] := by
  cases native with
  | ok r => exact .inr ⟨_,rfl⟩
  | error e =>
    simp only [tells]
    unfold nativeFailed
    split
    · exact .inr ⟨_,rfl⟩
    · split
      · exact .inr ⟨_,rfl⟩
      · exact .inl rfl
    · exact .inr ⟨_,rfl⟩
    · exact .inr ⟨_,rfl⟩

theorem tells_failed (told : tells (.error e) = [t]) : t.outcome = "failed" ∧ t.delivery = "unknown" ∧ t.returncode = none ∧ ∃ code, t.error = some code := by
  simp only [tells] at told
  unfold nativeFailed at told
  split at told
  · cases told
    exact ⟨rfl,rfl,rfl,_,rfl⟩
  · split at told
    · cases told
      exact ⟨rfl,rfl,rfl,_,rfl⟩
    · cases told
  · cases told
    exact ⟨rfl,rfl,rfl,_,rfl⟩
  · cases told
    exact ⟨rfl,rfl,rfl,_,rfl⟩

theorem nativeFailed_raises (e : Raised) (r : SendResult) : (nativeFailed e).outcome ≠ .ok r := by
  unfold nativeFailed
  split
  · exact nofun
  · split
    · exact nofun
    · exact nofun
  · exact nofun
  · exact nofun

theorem reservedSend_fresh (fresh : w.replay = none) : terminals (reservedSend w plan).trace = tells (runNativeSend w plan).outcome ∧
    ∀ answer, (reservedSend w plan).outcome = .ok answer →
      ∃ r, (runNativeSend w plan).outcome = .ok r ∧ (recorded w r).outcome = .ok answer := by
  have quiet : terminals (runNativeSend w plan).trace = [] := quiet_terminals runNativeSend_untold
  unfold reservedSend
  rw [fresh]
  simp only [Traced.attempt]
  cases native : (runNativeSend w plan).outcome with
  | ok r =>
    simp only
    refine ⟨?_,fun answer ended => ⟨r,rfl,ended⟩⟩
    rw [recorded_trace,terminals,List.filterMap_append,← terminals,quiet]
    rfl
  | error e =>
    simp only
    refine ⟨?_,fun answer ended => absurd ended (nativeFailed_raises e answer)⟩
    rw [terminals,List.filterMap_append,← terminals,quiet]
    rfl

theorem openReserved_passes (reserve : w.check .reserve = none) (downgrade : w.check .downgradeMarker = none) :
    openReserved w plan = (reservedSend w plan).ensuring (slipped w .closeNamespace) := by
  show Traced.ensuring (Traced.bind ((checked w .reserve).ensuring (checked w .downgradeMarker)) _) _ = _
  rw [checked,checked,reserve,downgrade]
  rfl

theorem openReserved_refuses (raises : w.check .reserve ≠ none ∨ w.check .downgradeMarker ≠ none) :
    (openReserved w plan).trace = [] ∧ ∀ r, (openReserved w plan).outcome ≠ .ok r := by
  have stops : ∃ e, Traced.bind ((checked w .reserve).ensuring (checked w .downgradeMarker)) (fun _ => reservedSend w plan) = .raise e := by
    unfold checked
    cases downgrade : w.check .downgradeMarker with
    | some e =>
      cases w.check .reserve with
      | some first => exact ⟨e,rfl⟩
      | none => exact ⟨e,rfl⟩
    | none =>
      cases reserve : w.check .reserve with
      | some e => exact ⟨e,rfl⟩
      | none => simp [reserve,downgrade] at raises
  obtain ⟨e,same⟩ := stops
  have stopped : openReserved w plan = (Traced.raise e : Run SendResult).ensuring (slipped w .closeNamespace) := by
    rw [← same]
    rfl
  rw [stopped]
  exact ⟨ensuring_trace _,fun r ended => nomatch ensuring_ok ended⟩

variable {space : Audit.AuditNamespace} {request : String} {plan : SendPlan} {identity : Audit.AuditIdentity}

-- A stopped attempt leaves what it met, or what one of its writes left.
theorem stopped_ends {attempt : Audit.Attempt α} (ends : attempt.Ends d) (done : stopped attempt d stop = some (after,reply)) :
    after = d ∨ after ∈ attempt.during.map Prod.snd := by
  unfold stopped at done
  split at done
  · cases done
    exact ends
  · split at done
    · rename_i inside
      cases done
      exact inside
    · cases done

theorem stopped_reserve (done : stopped (Audit.reserve space request identity now d) d stop = some (after,reply)) :
    Audit.Struck space (.reserve request identity now) d after := stopped_ends (Audit.reserve_ends space) done

theorem stopped_terminal (done : stopped (Audit.appendTerminal space request identity now terminal d) d stop = some (after,reply)) :
    Audit.Struck space (.appendTerminal request identity now terminal) d after := stopped_ends (Audit.appendTerminal_ends space) done

theorem stopped_ok {attempt : Audit.Attempt α} (done : stopped attempt d stop = some (after,.ok value)) :
    attempt.outcome = .ok value ∧ after = attempt.after := by
  unfold stopped at done
  split at done
  · simp only [Option.some.injEq,Prod.mk.injEq] at done
    obtain ⟨same,answered⟩ := done
    cases outcome : attempt.outcome with
    | error e => rw [outcome] at answered; cases answered
    | ok found => rw [outcome] at answered; cases answered; exact ⟨rfl,same.symm⟩
  · split at done <;> cases done

-- A call whose audit answers does what the answer says, and nothing else.
theorem executeSend_answered (w : World) (plan : SendPlan) (allowWrite : Bool) :
    ((executeSend w plan allowWrite).trace = [] ∧ ∀ r, (executeSend w plan allowWrite).outcome ≠ .ok r) ∨
      (asks w plan allowWrite = true ∧ w.check .reserve = none ∧ w.check .downgradeMarker = none ∧
        (executeSend w plan allowWrite).trace = (reservedSend w plan).trace ∧
        ∀ r, (executeSend w plan allowWrite).outcome = .ok r → (reservedSend w plan).outcome = .ok r) := by
  rcases executeSend_asks w plan allowWrite with ⟨_,early⟩ | ⟨asks,same⟩
  · exact .inl early
  · by_cases passes : w.check .reserve = none ∧ w.check .downgradeMarker = none
    · refine .inr ⟨asks,passes.1,passes.2,?_,fun r ended => ?_⟩
      · rw [same,ensuring_trace,handled_trace,openReserved_passes passes.1 passes.2,ensuring_trace]
      · rw [same] at ended
        have answered := handled_ok (ensuring_ok ended)
        rw [openReserved_passes passes.1 passes.2] at answered
        exact ensuring_ok answered
    · obtain ⟨quiet,raises⟩ : (openReserved w plan).trace = [] ∧ ∀ r, (openReserved w plan).outcome ≠ .ok r :=
        openReserved_refuses (not_and_or.mp passes)
      refine .inl ⟨by rw [same,ensuring_trace,handled_trace,quiet],fun r ended => ?_⟩
      rw [same] at ended
      exact raises r (handled_ok (ensuring_ok ended))

theorem answered_reserve (w : World) (reply : Except Raised (Option AuditReceipt)) :
    (w.answered reply).check .reserve = none ↔ ∃ replay, reply = .ok replay := by
  cases reply with
  | ok replay => exact ⟨fun _ => ⟨replay,rfl⟩,fun _ => rfl⟩
  | error e => exact ⟨nofun,nofun⟩

theorem asks_answered (w : World) (reply : Except Raised (Option AuditReceipt)) :
    asks (w.answered reply) plan allowWrite = asks w plan allowWrite := by
  unfold asks firstChecks kimiChecks
  split <;> rfl

theorem reservedSend_replays (replays : w.replay = some receipt) : reservedSend w plan = replayedSendResult plan receipt := by
  unfold reservedSend
  rw [replays]

-- What a call does that does not come to the native path: it replays a receipt, or returns nothing.
theorem send_outside (outside : ¬ Enters space request plan identity d s)
    (done : send space request plan identity d s = some (after,run)) :
    run.trace = [] ∧ (after = d ∨ Audit.Struck space (.reserve request identity s.asked) d after) ∧
      ∀ result, run.outcome = .ok result → ∃ receipt, (Audit.reserve space request identity s.asked d).outcome = .ok (some receipt) ∧
        (replayedSendResult plan receipt).outcome = .ok result := by
  unfold send at done
  simp only at done
  split at done
  · rename_i asked
    cases reserving : stopped (Audit.reserve space request identity s.asked d) d s.reserving with
    | none => rw [reserving] at done; cases done
    | some pair =>
      obtain ⟨reserved,reply⟩ := pair
      rw [reserving] at done
      simp only [Option.bind_eq_bind,Option.bind_some] at done
      have ending : (executeSend ((s.world.of request).answered reply) plan s.allowWrite).trace = [] ∧
          ∀ result, (executeSend ((s.world.of request).answered reply) plan s.allowWrite).outcome = .ok result →
            ∃ receipt, reply = .ok (some receipt) ∧ (replayedSendResult plan receipt).outcome = .ok result := by
        rcases executeSend_answered ((s.world.of request).answered reply) plan s.allowWrite with ⟨quiet,raises⟩ | ⟨_,passes,downgrade,same,ends⟩
        · exact ⟨quiet,fun result ended => absurd ended (raises result)⟩
        · obtain ⟨replay,rfl⟩ := (answered_reserve _ _).mp passes
          cases replay with
          | none => exact absurd ⟨asked,downgrade,reserved,reserving⟩ outside
          | some receipt =>
            have replays : reservedSend ((s.world.of request).answered (.ok (some receipt))) plan = replayedSendResult plan receipt :=
              reservedSend_replays rfl
            exact ⟨by rw [same,replays]; exact sendResult_trace _,fun result ended => ⟨receipt,rfl,replays ▸ ends result ended⟩⟩
      rw [ending.1] at done
      cases done
      refine ⟨ending.1,.inr (stopped_reserve reserving),fun result ended => ?_⟩
      obtain ⟨receipt,rfl,replayed⟩ := ending.2 result ended
      exact ⟨receipt,(stopped_ok reserving).1,replayed⟩
  · rename_i early
    cases done
    rcases executeSend_asks (s.world.of request) plan s.allowWrite with ⟨_,quiet,raises⟩ | ⟨asks,_⟩
    · exact ⟨quiet,.inl rfl,fun result ended => absurd ended (raises result)⟩
    · exact absurd asks early

theorem executeSend_fresh (asked : asks w plan allowWrite = true) (reserve : w.check .reserve = none)
    (downgrade : w.check .downgradeMarker = none) (fresh : w.replay = none) :
    terminals (executeSend w plan allowWrite).trace = tells (runNativeSend w plan).outcome ∧
      ∀ answer, (executeSend w plan allowWrite).outcome = .ok answer →
        ∃ r, (runNativeSend w plan).outcome = .ok r ∧ (recorded w r).outcome = .ok answer := by
  obtain ⟨told,ends⟩ : terminals (reservedSend w plan).trace = tells (runNativeSend w plan).outcome ∧ _ := reservedSend_fresh fresh
  rcases executeSend_asks w plan allowWrite with ⟨early,_⟩ | ⟨_,same⟩
  · rw [early] at asked
    cases asked
  · rw [same,openReserved_passes reserve downgrade]
    refine ⟨by rw [ensuring_trace,handled_trace,ensuring_trace,told],fun answer ended => ?_⟩
    exact ends answer (ensuring_ok (handled_ok (ensuring_ok ended)))

-- What a call does that comes to the native path: it appends the terminal that comes of it, if there is one.
theorem send_inside (entering : Enters space request plan identity d s) (done : send space request plan identity d s = some (after,run)) :
    ∃ reserved, (Audit.reserve space request identity s.asked d).outcome = .ok none ∧
      reserved = (Audit.reserve space request identity s.asked d).after ∧ terminals run.trace = tells (native request plan s) ∧
      ((tells (native request plan s) = [] ∧ after = reserved ∧ ∀ answer, run.outcome ≠ .ok answer) ∨
       ∃ t reply, tells (native request plan s) = [t] ∧
        stopped (Audit.appendTerminal space request identity s.told t reserved) reserved s.appending = some (after,reply) ∧
        ∀ answer, run.outcome = .ok answer → ∃ r, native request plan s = .ok r ∧
          (recorded (((s.world.of request).answered (.ok none)).heard reply) r).outcome = .ok answer) := by
  obtain ⟨asked,downgrade,reserved,reserving⟩ := entering
  obtain ⟨fresh,same⟩ := stopped_ok reserving
  refine ⟨reserved,fresh,same,?_⟩
  unfold send at done
  simp only [asked,if_true,reserving,Option.bind_eq_bind,Option.bind_some] at done
  have asked' : asks ((s.world.of request).answered (.ok none)) plan s.allowWrite = true := (asks_answered _ _).trans asked
  obtain ⟨told,raises⟩ := executeSend_fresh asked' rfl downgrade rfl
  rcases tells_once (native request plan s) with none_told | ⟨t,told_once⟩
  · rw [told.trans none_told] at done
    cases done
    refine ⟨told,.inl ⟨none_told,rfl,fun answer ended => ?_⟩⟩
    obtain ⟨r,answered,_⟩ := raises answer ended
    rw [native,answered] at none_told
    cases none_told
  · rw [told.trans told_once] at done
    simp only at done
    cases appending : stopped (Audit.appendTerminal space request identity s.told t reserved) reserved s.appending with
    | none => rw [appending] at done; cases done
    | some pair =>
      obtain ⟨settled,reply⟩ := pair
      rw [appending] at done
      cases done
      obtain ⟨again,answers⟩ := executeSend_fresh (w := ((s.world.of request).answered (.ok none)).heard reply) asked' rfl downgrade rfl
      exact ⟨again,.inr ⟨t,reply,told_once,appending,answers⟩⟩

end AgentSideCar.Send
