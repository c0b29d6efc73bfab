import AgentSideCar.Send.Execute

namespace AgentSideCar.Send
open Audit (Terminal)

-- The codes that kimi_acp.py gives its driver failures.
def driverCodes : List String := ["protocol_error","timeout","session_busy","output_overflow","session_unavailable","invalid_session",
  "session_changed"]

def Poll.snag : Poll → Option Snag
  | .raised snag => some snag
  | .wrote _ trouble => trouble
  | _ => none

-- Whatever may end the exchange.
def Exchange.snags (x : Exchange) : List Snag :=
  x.setup.2.toList ++ x.unwritten.toList ++ x.polls.filterMap Poll.snag ++ (match x.settled with | .error snag => [snag] | .ok _ => [])
    ++ x.trailing.toList

-- What the plan's checks and the operating system grant a call: the refreshed plan is for the same
-- agent, Kimi and no other goes over ACP, return codes are those of a process.
structure Sane (plan : SendPlan) (w : World) : Prop where
  agent : w.refreshed.agent = plan.agent
  kimi : plan.transport = "kimi_acp" ↔ plan.agent = "kimi"
  ran : ∀ completed, w.ran = .ok completed → Audit.validReturncode completed.returncode = true
  unstarted : ∀ completed, w.unstarted = some (.ok completed) → Audit.validReturncode completed.returncode = true
  observed : ∀ seen, w.exchange.observed = some seen → Audit.validReturncode seen.returncode = true
  codes : ∀ code, .driver code ∈ w.exchange.snags → code ∈ driverCodes

-- The outcome that a replay reads out of a terminal.
def replayedOutcome (plan : SendPlan) (t : Terminal) : String :=
  if plan.agent = "kimi" ∧ t.outcome = "failed" ∧ t.delivery = "unknown" ∧ t.returncode = some 0 ∧ t.error = none then "completed"
  else t.outcome

-- The validator accepts the result's terminal, and a replay of it gives the result's outcome back.
structure Recordable (plan : SendPlan) (r : SendResult) : Prop where
  accepted : (auditTerminal r).valid = true
  restored : replayedOutcome plan (auditTerminal r) = r.outcome
  settled : r.outcome ≠ "audit_error"

variable {w : World} {plan : SendPlan}

theorem sendResult_yields {good : SendResult → Prop} (holds : r.valid = true → good r) : (sendResult r).Yields good := by
  unfold sendResult
  split
  · rename_i valid
    exact .done (holds valid)
  · exact .raise

-- Every snag but a driver's own failure has a fixed code.
def acpCodes : List String := driverCodes ++ ["cancelled","containment_unsupported","spawn_error","cleanup_incomplete","native_exit"]

theorem snag_code (listed : ∀ code, snag = .driver code → code ∈ driverCodes) : Snag.code snag ∈ acpCodes := by
  cases snag with
  | driver code => exact List.mem_append_left _ (listed code rfl)
  | _ => simp only [Snag.code]; decide

theorem acpCodes_fit : ∀ code ∈ acpCodes, Audit.errorRe code = true := by decide +kernel

-- What run_kimi_acp reports of a sane exchange.
structure Reported (result : KimiAcpResult) : Prop where
  code : ∀ code, result.errorCode = some code → code ∈ acpCodes
  returncode : Audit.validReturncode result.returncode = true

theorem finishAcp_reported (sane : Sane plan w) (coded : ∀ snag', snag = some snag' → Snag.code snag' ∈ acpCodes) :
    (finishAcp w.exchange phase promptWrite stopReason snag).Yields Reported := by
  unfold finishAcp
  split
  · exact .raise
  · exact .raise
  · refine .done ⟨fun code same => ?_,?_⟩
    · simp only at same
      split at same
      · cases same
        decide
      · split at same
        · split at same
          · cases same
            decide
          · split at same
            · cases same
              decide
            · cases same
        · obtain ⟨snag',rfl,rfl⟩ := Option.map_eq_some_iff.mp same
          exact coded snag' rfl
    · cases seen : w.exchange.observed with
      | none => rfl
      | some observed => exact sane.observed observed seen

theorem pushLine_raised (payload : List UInt8) (polls : List Poll) (written : Nat)
    (raised : (pushLine payload written polls).raised = some snag) :
    snag ∈ polls.filterMap Poll.snag ∨ snag = .escape .keyboardInterrupt := by
  induction polls generalizing written with
  | nil => cases raised
  | cons poll rest ih =>
    have later : snag ∈ rest.filterMap Poll.snag → snag ∈ (poll :: rest).filterMap Poll.snag := by
      intro inside
      rw [List.filterMap_cons]
      split
      · exact inside
      · exact List.mem_cons_of_mem _ inside
    unfold pushLine at raised
    split at raised
    · cases raised
    · cases poll with
      | expired => cases raised
      | idle => exact (ih written raised).imp_left later
      | raised snag' =>
        cases raised
        exact .inl (by simp [Poll.snag])
      | broken => cases raised
      | interrupted count =>
        cases raised
        exact .inr rfl
      | wrote count trouble =>
        simp only at raised
        split at raised
        · cases raised
        · cases trouble with
          | some snag' =>
            cases raised
            exact .inl (by simp [Poll.snag])
          | none => exact (ih _ raised).imp_left later

theorem driver_coded (listed : code ∈ driverCodes) : Snag.code (.driver code) ∈ acpCodes := snag_code (by rintro _ ⟨⟩; exact listed)

theorem callback_coded (e : Raised) : callbackFailureCode e ∈ driverCodes := by
  unfold callbackFailureCode
  split
  · split
    · rename_i code _ listed
      have within : ∀ code ∈ callbackErrorCodes, code ∈ driverCodes := by decide
      exact within code listed
    · decide
  · decide

theorem writePrompt_reported (sane : Sane plan w) (frame : List UInt8) : (writePrompt w.exchange frame).Yields Reported := by
  have known : ∀ snag ∈ w.exchange.snags, Snag.code snag ∈ acpCodes :=
    fun snag inside => snag_code fun code same => sane.codes code (same ▸ inside)
  unfold writePrompt
  split
  · rename_i snag unwritten
    exact finishAcp_reported sane (by rintro _ ⟨⟩; exact known snag (by simp [Exchange.snags,unwritten]))
  · refine .bind fun _ _ => ?_
    have raised : ∀ snag, (pushLine frame 0 w.exchange.polls).raised = some snag → Snag.code snag ∈ acpCodes := by
      intro snag struck
      rcases pushLine_raised frame w.exchange.polls 0 struck with listed | rfl
      · refine known snag ?_
        simp only [Exchange.snags,List.mem_append]
        exact .inl (.inl (.inr listed))
      · decide
    split
    · rename_i snag struck _
      exact finishAcp_reported sane (by rintro _ ⟨⟩; exact raised snag struck)
    · rename_i snag struck _
      exact finishAcp_reported sane (by rintro _ ⟨⟩; exact raised snag struck)
    · unfold readResponse
      split
      · rename_i snag settled
        exact finishAcp_reported sane (by rintro _ ⟨⟩; exact known snag (by simp [Exchange.snags,settled]))
      · exact finishAcp_reported sane fun snag trailing => known snag (by simp [Exchange.snags,trailing])
    · exact finishAcp_reported sane (by rintro _ ⟨⟩; exact driver_coded (by decide))

theorem runKimiAcp_reported (sane : Sane plan w) : (runKimiAcp w.exchange w.frame (beforePrompt w)).Yields Reported := by
  unfold runKimiAcp
  split
  · rename_i phase snag setup
    refine finishAcp_reported sane ?_
    rintro _ ⟨⟩
    exact snag_code fun code same => sane.codes code (by simp [Exchange.snags,setup,same])
  · refine .attempt (fun _ _ => writePrompt_reported sane _) fun e _ => ?_
    split
    · exact finishAcp_reported sane (by rintro _ ⟨⟩; exact driver_coded (callback_coded e))
    · exact .raise

theorem recordable_unknown {r : SendResult} (outcome : r.outcome ∈ ["failed","timed_out","overflow"]) (delivery : r.delivery = "unknown")
    (code : r.errorCode = some c) (fits : Audit.errorRe c = true) (returncode : Audit.validReturncode r.returncode = true) :
    Recordable plan r := by
  have told : auditTerminal r = ⟨r.outcome,"unknown",some c,r.returncode⟩ := by
    have open_outcome : r.outcome ≠ "completed" := by rintro same; rw [same] at outcome; revert outcome; decide
    simp [auditTerminal,open_outcome,delivery,code]
  refine ⟨?_,?_,?_⟩
  · rw [told]
    have known : ∀ o ∈ ["failed","timed_out","overflow"], o ∈ Audit.terminalOutcomes ∧ o ≠ "completed" := by decide
    simp [Audit.Terminal.valid,known _ outcome,returncode,fits,Audit.deliveryStates]
  · rw [told]
    simp [replayedOutcome]
  · rintro same
    rw [same] at outcome
    revert outcome
    decide

theorem recordable_delivered {r : SendResult} (outcome : r.outcome = "completed") (delivery : r.delivery = "delivered")
    (code : r.errorCode = none) (returncode : r.returncode = some 0) : Recordable plan r := by
  have told : auditTerminal r = ⟨"completed","delivered",none,some 0⟩ := by simp [auditTerminal,outcome,delivery,code,returncode]
  exact ⟨by rw [told]; decide,by rw [told,outcome]; simp [replayedOutcome],by rw [outcome]; decide⟩

-- Kimi's own: completed by the session's records, but the child was not seen to end.
theorem recordable_kimi {r : SendResult} (agent : r.agent = "kimi") (same : plan.agent = "kimi") (outcome : r.outcome = "completed")
    (delivery : r.delivery = "unknown") (code : r.errorCode = none) (returncode : r.returncode = some 0) : Recordable plan r := by
  have told : auditTerminal r = ⟨"failed","unknown",none,some 0⟩ := by simp [auditTerminal,agent,outcome,delivery,code,returncode]
  exact ⟨by rw [told]; decide,by rw [told,outcome]; simp [replayedOutcome,same],by rw [outcome]; decide⟩

theorem recordable_forked {r : SendResult} (agent : r.agent ≠ "kimi") (outcome : r.outcome = "completed")
    (delivery : r.delivery = "unknown") (code : r.errorCode = some "cleanup_incomplete") (returncode : r.returncode = some 0) :
    Recordable plan r := by
  have told : auditTerminal r = ⟨"completed","unknown",some "cleanup_incomplete",some 0⟩ := by
    simp [auditTerminal,agent,outcome,delivery,code,returncode]
  exact ⟨by rw [told]; decide,by rw [told,outcome]; simp [replayedOutcome],by rw [outcome]; decide⟩

theorem failed_outcome (code : String) :
    (if code = "timeout" then "timed_out" else if code = "output_overflow" then "overflow" else "failed") ∈ ["failed","timed_out","overflow"] := by
  split
  · decide
  · split <;> decide

theorem kimiResult_recordable (sane : Sane plan w) (kimi : plan.agent = "kimi") {result : KimiAcpResult} (reported : Reported result) :
    (kimiResult w result).Yields (Recordable plan) := by
  refine .bind fun delivered _ => ?_
  split
  · refine sendResult_yields fun _ => ?_
    by_cases clean : result.cleanupComplete = true
    · exact recordable_delivered rfl (by simp [clean]) rfl rfl
    · exact recordable_kimi (sane.agent.trans kimi) kimi rfl (by simp [clean]) rfl rfl
  · refine sendResult_yields fun _ => recordable_unknown (failed_outcome _) rfl rfl ?_ reported.returncode
    · refine acpCodes_fit _ ?_
      split
      · decide
      · cases code : result.errorCode with
        | none => decide
        | some c => exact reported.code c code

theorem overflow_fits (kind : String) (listed : kind ∈ ["input","stdout","stderr","output"]) : Audit.errorRe (kind ++ "_overflow") = true := by
  have all : ∀ kind ∈ ["input","stdout","stderr","output"], Audit.errorRe (kind ++ "_overflow") = true := by decide +kernel
  exact all kind listed

theorem completedResult_recordable (sane : Sane plan w) (other : plan.agent ≠ "kimi") {completed : BoundedProcessResult}
    (returned : Audit.validReturncode completed.returncode = true) :
    (completedResult w w.refreshed completed).Yields (Recordable plan) := by
  refine .bind fun _ _ => ?_
  simp only
  split
  · rename_i kind overflowed
    refine sendResult_yields fun _ => recordable_unknown (by simp) rfl rfl (overflow_fits kind ?_) returned
    rcases Option.or_eq_some_iff.mp overflowed with native | ⟨_,oversized⟩
    · have listed := (Option.filter_eq_some_iff.mp native).2
      revert listed
      simp only [decide_eq_true_eq]
      exact fun listed => List.mem_append_left ["output"] listed
    · split at oversized
      · cases oversized
        decide
      · cases oversized
  · split
    · refine sendResult_yields fun _ => ?_
      by_cases answered : completed.returncode = some 0 ∧ w.rendered.1 ≠ ""
      · exact recordable_forked (by rw [sane.agent]; exact other) (if_pos answered) rfl rfl answered.1
      · exact recordable_unknown (by simp [answered]) rfl rfl (by decide +kernel) returned
    · split
      · rename_i zero
        exact sendResult_yields fun _ => recordable_delivered rfl rfl rfl zero
      · exact sendResult_yields fun _ => recordable_unknown (by simp) rfl rfl (by decide +kernel) returned

theorem runnerFailed_recordable (e : Raised) : (runnerFailed w w.refreshed e).Yields (Recordable plan) := by
  unfold runnerFailed
  split
  · refine .bind fun _ _ => sendResult_yields fun _ => ?_
    split
    · exact recordable_unknown (by simp) rfl rfl (by decide +kernel) rfl
    · exact recordable_unknown (by simp) rfl rfl (by decide +kernel) rfl
  · exact sendResult_yields fun _ => recordable_unknown (by simp) rfl rfl (by decide +kernel) rfl
  · exact sendResult_yields fun _ => recordable_unknown (by simp) rfl rfl (by decide +kernel) rfl
  · exact .raise

theorem runBounded_returns (sane : Sane plan w) (hook : Run Unit) :
    (runBounded w hook).Yields fun completed => Audit.validReturncode completed.returncode = true := by
  unfold runBounded
  split
  · rename_i outcome unstarted
    intro completed ended
    cases outcome with
    | error e => cases ended
    | ok seen =>
      cases ended
      exact sane.unstarted completed unstarted
  · refine .attempt (fun completed ended => .done ?_) fun _ _ => .bind fun _ _ => .raise
    have returned : (do
        slipped w .spawn
        hook
        Traced.emit .released
        slipped w .gate
        Traced.quietly (w.ran.mapError .foreign) : Run BoundedProcessResult).Yields
          fun completed => Audit.validReturncode completed.returncode = true := by
      refine .bind fun _ _ => .bind fun _ _ => .bind fun _ _ => .bind fun _ _ => ?_
      intro completed ended
      cases ran : w.ran with
      | error e => rw [ran] at ended; cases ended
      | ok seen =>
        rw [ran] at ended
        cases ended
        exact sane.ran completed ran
    exact returned completed ended

theorem sessionLock_yields {good : SendResult → Prop} {body : Run SendResult} (yields : body.Yields good) :
    (sessionLock w body).Yields good := .bind fun _ _ => yields.ensuring

-- Every result of the native path is one that the validator accepts and that a replay gives back.
theorem runNativeSend_recordable (sane : Sane plan w) : (runNativeSend w plan).Yields (Recordable plan) := by
  unfold runNativeSend
  split
  · rename_i acp
    refine sessionLock_yields (.ensuring ?_)
    refine .bind fun _ _ => .bind fun _ _ => .bind fun _ _ => .bind fun _ _ => .bind fun _ _ => .bind fun _ _ => .bind fun _ _ =>
      .bind fun result ended => .bind fun _ _ => ?_
    split
    · exact .raise
    · exact kimiResult_recordable sane (sane.kimi.mp acp) (runKimiAcp_reported sane result ended)
  · rename_i argv
    refine sessionLock_yields (.bind fun _ _ => .bind fun _ _ => .bind fun _ _ => ?_)
    exact .attempt (fun completed ended => completedResult_recordable sane (mt sane.kimi.mpr argv) (runBounded_returns sane _ completed ended))
      fun e _ => runnerFailed_recordable e

end AgentSideCar.Send
