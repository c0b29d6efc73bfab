import AgentSideCar.Audit.Torn
import AgentSideCar.Send.Sends

namespace AgentSideCar.Send
open Audit (AuditReceipt History Left retained)

section Machine
variable (space : Audit.AuditNamespace) (request : String) (plan : SendPlan) (identity : Audit.AuditIdentity)

-- A call of execute_send under the request, or a store call of another request that returns or
-- is stopped as one of its writes left the disk.
inductive Event where
  | sent (s : Sent)
  | other (call : Audit.Call) (left : Option Audit.Disk)

def advance (d : Audit.Disk) : Event → Option Audit.Disk
  | .sent s => (send space request plan identity d s).map Prod.fst
  | .other call left =>
    if call.requestId = request then none
    else match left with
      | none => some (Audit.perform space call d).1
      | some left => if left = d ∨ left ∈ (Audit.writes space call d).map Prod.snd then some left else none

-- The history of the request is retained.
def Retaining (d : Audit.Disk) (_ : Event) : Prop := (retained space d request).isSome = true

end Machine

variable {w : World} {space : Audit.AuditNamespace} {request : String} {plan : SendPlan} {identity : Audit.AuditIdentity}

theorem sent_left (left : Left space d) (done : send space request plan identity d s = some (after,run)) : Left space after := by
  by_cases entering : Enters space request plan identity d s
  · obtain ⟨reserved,_,rfl,_,none_told | ⟨t,reply,_,appending,_⟩⟩ := send_inside entering done
    · rw [none_told.2.1]
      exact (Audit.struck_kept left (Audit.perform_struck space (.reserve request identity s.asked) d)).1
    · have middle := (Audit.struck_kept left (Audit.perform_struck space (.reserve request identity s.asked) d)).1
      exact (Audit.struck_kept middle (stopped_terminal appending)).1
  · obtain ⟨_,rfl | struck,_⟩ := send_outside entering done
    · exact left
    · exact (Audit.struck_kept left struck).1

theorem other_struck (stepped : advance space request plan identity d (.other call left) = some after) :
    call.requestId ≠ request ∧ Audit.Struck space call d after := by
  simp only [advance] at stepped
  split at stepped
  · cases stepped
  · rename_i apart
    refine ⟨apart,?_⟩
    cases left with
    | none =>
      cases stepped
      exact Audit.perform_struck space call d
    | some left =>
      simp only at stepped
      split at stepped
      · rename_i inside
        cases stepped
        exact inside
      · cases stepped

theorem advance_left (left : Left space d) (stepped : advance space request plan identity d event = some after) : Left space after := by
  cases event with
  | sent s =>
    obtain ⟨⟨last,run⟩,done,rfl⟩ := Option.map_eq_some_iff.mp stepped
    exact sent_left left done
  | other call stop => exact (Audit.struck_kept left (other_struck stepped).2).1

theorem run_left (path : Runs.Run (advance space request plan identity) allowed d events after) (left : Left space d) : Left space after :=
  path.invariant (Left space) left fun _ _ _ held _ stepped => advance_left held stepped

-- A call finds no way to the native path while the request is retained.
theorem retained_outside (left : Left space d) (shows : retained space d request = some h) :
    ¬ Enters space request plan identity d s := by
  rintro ⟨_,_,reserved,reserving⟩
  rw [Audit.reserve_fresh left (stopped_ok reserving).1] at shows
  cases shows

-- The step lemma: a retained history is as it was after any step, if it is retained still.
theorem advance_same (left : Left space d) (shows : retained space d request = some h)
    (stepped : advance space request plan identity d event = some after) (later : retained space after request = some h') : h' = h := by
  cases event with
  | sent s =>
    obtain ⟨⟨last,run⟩,done,rfl⟩ := Option.map_eq_some_iff.mp stepped
    obtain ⟨_,rfl | struck,_⟩ := send_outside (retained_outside left shows) done
    · exact Option.some.inj (later.symm.trans shows)
    · have kept := (Audit.struck_kept left struck).2 request h' later
      rw [shows] at kept
      cases kept
      rfl
  | other call stop =>
    obtain ⟨apart,struck⟩ := other_struck stepped
    have kept := (Audit.struck_kept left struck).2 request h' later
    rw [shows] at kept
    cases kept with
    | same => rfl
    | settled => exact absurd rfl apart

theorem run_same (path : Runs.Run (advance space request plan identity) (Retaining space request) d events after) (left : Left space d)
    (shows : retained space d request = some h) (kept : (retained space after request).isSome = true) : retained space after request = some h := by
  induction path with
  | nil => exact shows
  | @cons d event middle rest after fits stepped path ih =>
    have present : (retained space middle request).isSome = true := by
      cases path with
      | nil => exact kept
      | cons retains _ _ => exact retains
    obtain ⟨h',later⟩ := Option.isSome_iff_exists.mp present
    cases advance_same left shows stepped later
    exact ih (advance_left left stepped) later kept

-- What a later call reports of a request: what the first call's native path came to, or that it is pending.
def Pending (result : SendResult) : Prop :=
  result.outcome = "request_pending" ∧ result.delivery = "unknown" ∧ result.returncode = none ∧ result.errorCode = some "request_pending"

def Repeats : Except Raised SendResult → SendResult → Prop
  | .ok r,result => result.outcome = r.outcome ∧ result.delivery = r.delivery ∧ result.returncode = r.returncode ∧ result.errorCode = r.errorCode
  | .error e,result => result.outcome = "failed" ∧ result.delivery = "unknown" ∧ result.returncode = none ∧
      ∃ code, result.errorCode = some code ∧ tells (.error e) = [⟨"failed","unknown",some code,none⟩]

theorem sane_answered (sane : Sane plan w) (reply : Except Raised (Option AuditReceipt)) : Sane plan ((w.of request).answered reply) :=
  ⟨sane.agent,sane.kimi,sane.ran,sane.unstarted,sane.observed,sane.codes⟩

theorem sendResult_ok (ended : (sendResult r).outcome = .ok result) : result = r := by
  unfold sendResult at ended
  split at ended
  · cases ended
    rfl
  · cases ended

theorem replayed_pending (pends : r.isPending = true) (ended : (replayedSendResult plan (Audit.receipt r)).outcome = .ok result) :
    result.replayed = true ∧ Pending result := by
  have unsettled : r.terminal = none := by simpa [Audit.Record.isPending] using pends
  cases sendResult_ok ended
  simp [Audit.receipt,unsettled,Pending]

theorem replayed_terminal (settled : r.terminal = some t) (ended : (replayedSendResult plan (Audit.receipt r)).outcome = .ok result) :
    result.replayed = true ∧ result.outcome = replayedOutcome plan t ∧ result.delivery = t.delivery ∧ result.returncode = t.returncode ∧
      result.errorCode = t.error := by
  cases sendResult_ok ended
  simp [Audit.receipt,settled,replayedOutcome]

theorem terminal_repeats (recordable : ∀ r, answer = .ok r → Recordable plan r) (told : tells answer = [t])
    (outcome : result.outcome = replayedOutcome plan t) (delivery : result.delivery = t.delivery) (returncode : result.returncode = t.returncode)
    (error : result.errorCode = t.error) : Repeats answer result := by
  cases answer with
  | ok r =>
    simp only [tells,List.cons.injEq,and_true] at told
    subst told
    exact ⟨outcome.trans (recordable r rfl).restored,delivery,returncode,error⟩
  | error e =>
    obtain ⟨failed,unknown,unreturned,code,coded⟩ := tells_failed told
    have same : t = ⟨"failed","unknown",some code,none⟩ := by
      cases t
      cases failed
      cases unknown
      cases unreturned
      cases coded
      rfl
    refine ⟨?_,delivery.trans unknown,returncode.trans unreturned,code,error.trans coded,by rw [told,same]⟩
    rw [outcome,same]
    simp [replayedOutcome]

-- A receipt of a valid record makes a result.
theorem replay_returns (valid : r.valid = true) (plan : SendPlan) : ∃ result, (replayedSendResult plan (Audit.receipt r)).outcome = .ok result := by
  have accepted : ∀ result : SendResult, result.valid = true → ∃ answer, (sendResult result).outcome = .ok answer := by
    intro result fits
    exact ⟨result,by rw [sendResult,if_pos fits]; rfl⟩
  refine accepted _ ?_
  simp only [Audit.Record.valid,Bool.and_eq_true] at valid
  obtain ⟨⟨_,named⟩,terminal⟩ := valid
  cases settled : r.terminal with
  | none => simp [SendResult.valid,Audit.receipt,settled,named,sendOutcomes,deliveryStates]
  | some t =>
    rw [settled,Option.all_some] at terminal
    simp only [Audit.Terminal.valid,Bool.and_eq_true,decide_eq_true_eq] at terminal
    obtain ⟨⟨⟨⟨outcome,delivery⟩,_⟩,_⟩,combination⟩ := terminal
    have listed : t.outcome ∈ sendOutcomes ∧ t.delivery ∈ deliveryStates := by
      have outcomes : ∀ o ∈ Audit.terminalOutcomes, o ∈ sendOutcomes := by decide
      exact ⟨outcomes _ outcome,delivery⟩
    have completed : "completed" ∈ sendOutcomes := by decide
    simp only [SendResult.valid,Audit.receipt,settled,named,Bool.or_true,Bool.true_and]
    by_cases lost : plan.agent = "kimi" ∧ t.outcome = "failed" ∧ t.delivery = "unknown" ∧ t.returncode = some 0 ∧ t.error = none
    · simp [lost,completed,deliveryStates]
    · simp only [if_neg lost,listed.1,listed.2,decide_true,Bool.true_and]
      by_cases ended : t.outcome = "completed"
      · rw [if_pos ended,Bool.or_eq_true] at combination
        rcases combination with delivered | unknown
        · simp only [Bool.and_eq_true,decide_eq_true_eq] at delivered
          simp [ended,delivered.1.2]
        · simp only [Bool.and_eq_true,decide_eq_true_eq] at unknown
          simp [unknown.1.1]
      · rw [if_neg ended,decide_eq_true_eq] at combination
        simp [combination]

theorem recorded_failed (failed : w.appended = some e) (ended : (recorded w r).outcome = .ok answer) : answer.outcome = "audit_error" := by
  have same : (recorded w r).outcome = (if e.isException then sendResult {
      agent := r.agent,sessionId := r.sessionId,outcome := "audit_error",delivery := "unknown"
      returncode := r.returncode,response := r.response,stderr := r.stderr,errorCode := some "audit_error"
      requestId := w.requestId} else Traced.raise e).outcome := by
    unfold recorded
    rw [failed]
    rfl
  rw [same] at ended
  split at ended
  · rw [sendResult_ok ended]
  · cases ended

-- What the call leaves that first has the request retained, and what it returned then.
theorem first_history (left : Left space d) (fresh : retained space d request = none)
    (first : send space request plan identity d s = some (after,run)) (shows : retained space after request = some h) :
    (h = .reserved (Audit.baseRecord request identity space s.asked none) ∨ Enters space request plan identity d s ∧
      ∃ t, tells (native request plan s) = [t] ∧ h.latest = Audit.baseRecord request identity space s.told (some t)) ∧
    ∀ answer, run.outcome = .ok answer → answer.outcome ≠ "audit_error" → native request plan s = .ok answer ∧
      h.latest = Audit.baseRecord request identity space s.told (some (auditTerminal answer)) := by
  by_cases entering : Enters space request plan identity d s
  · obtain ⟨reserved,begins,same,_,⟨_,rfl,raises⟩ | ⟨t,reply,told,appending,answers⟩⟩ := send_inside entering first
    · rw [same] at shows
      exact ⟨.inl (Audit.reserved_begins left begins shows),fun answer ended => absurd ended (raises answer)⟩
    · have middle : Left space reserved := by
        rw [same]
        exact (Audit.struck_kept left (Audit.perform_struck space (.reserve request identity s.asked) d)).1
      have kept := (Audit.struck_kept middle (stopped_terminal appending)).2 request h shows
      have begun : ∀ h, retained space reserved request = some h → h = .reserved (Audit.baseRecord request identity space s.asked none) := by
        intro h shows
        rw [same] at shows
        exact Audit.reserved_begins left begins shows
      refine ⟨?_,fun answer ended fine => ?_⟩
      · generalize before : retained space reserved request = h₀ at kept
        cases kept with
        | same => exact .inl (begun h before)
        | settled => exact .inr ⟨entering,t,told,rfl⟩
      · obtain ⟨r,answered,recorded_r⟩ := answers answer ended
        rw [answered] at told
        cases told
        cases reply with
        | ok accepted =>
          have same_answer : answer = r := by
            have done : (recorded (((s.world.of request).answered (.ok none)).heard (.ok accepted)) r).outcome = .ok r := rfl
            exact Except.ok.inj (recorded_r.symm.trans done)
          obtain ⟨taken,rfl⟩ := stopped_ok appending
          subst same_answer
          exact ⟨answered,Audit.acknowledged_latest middle taken shows⟩
        | error e => exact absurd (recorded_failed rfl recorded_r) fine
  · obtain ⟨_,ends,replays⟩ := send_outside entering first
    refine ⟨?_,fun answer ended => ?_⟩
    · rcases ends with rfl | struck
      · rw [fresh] at shows
        cases shows
      · have kept := (Audit.struck_kept left struck).2 request h shows
        rw [fresh] at kept
        cases kept
        exact .inl rfl
    · obtain ⟨_,known,_⟩ := replays answer ended
      obtain ⟨h,present⟩ := Audit.reserve_known left known
      rw [fresh] at present
      cases present

-- Nothing of the call's own stands in the way of the replay.
structure Unhindered (request : String) (plan : SendPlan) (s : Sent) : Prop where
  asks : asks (s.world.of request) plan s.allowWrite = true
  reserving : s.reserving = none
  downgrade : s.world.check .downgradeMarker = none
  namespaceClosed : s.world.slip .closeNamespace = none
  kimiClosed : s.world.slip .closeKimi = none

theorem executeSend_replays (asked : asks w plan allowWrite = true) (reserve : w.check .reserve = none)
    (downgrade : w.check .downgradeMarker = none) (replay : w.replay = some receipt) (closed : w.slip .closeNamespace = none)
    (kimi : w.slip .closeKimi = none) (returns : (replayedSendResult plan receipt).outcome = .ok result) :
    executeSend w plan allowWrite = ⟨[],.ok result⟩ := by
  have told : replayedSendResult plan receipt = ⟨[],.ok result⟩ := by
    have whole : ∀ t : Run SendResult, t.trace = [] → t.outcome = .ok result → t = ⟨[],.ok result⟩ := by
      rintro ⟨_,_⟩ rfl rfl
      rfl
    exact whole _ (sendResult_trace _) returns
  have quiet : ∀ s, w.slip s = none → slipped w s = .done () := by
    intro s clear
    rw [slipped,clear]
    rfl
  rcases executeSend_asks w plan allowWrite with ⟨early,_⟩ | ⟨_,same⟩
  · rw [early] at asked
    cases asked
  · rw [same,openReserved_passes reserve downgrade,reservedSend_replays replay,told,quiet _ closed,quiet _ kimi]
    rfl

theorem send_replays (left : Left space d) (shows : retained space d request = some h)
    (same : Audit.recordIdentity h.latest = Audit.identityTuple identity space) (unhindered : Unhindered request plan s) :
    ∃ after result, send space request plan identity d s = some (after,⟨[],.ok result⟩) ∧
      (replayedSendResult plan (Audit.receipt h.latest)).outcome = .ok result := by
  obtain ⟨asked,unstopped,downgrade,closed,kimi⟩ := unhindered
  obtain ⟨_,_,valid,_⟩ := left.valid shows
  obtain ⟨result,replayed⟩ := replay_returns valid plan
  have answer : (Audit.reserve space request identity s.asked d).outcome = .ok (some (Audit.receipt h.latest)) := by
    rw [Audit.reserve_retained left shows,if_pos same]
  have reserving : stopped (Audit.reserve space request identity s.asked d) d s.reserving =
      some ((Audit.reserve space request identity s.asked d).after,.ok (some (Audit.receipt h.latest))) := by
    rw [unstopped,stopped,answer]
    rfl
  have ran : executeSend ((s.world.of request).answered (.ok (some (Audit.receipt h.latest)))) plan s.allowWrite = ⟨[],.ok result⟩ :=
    executeSend_replays ((asks_answered _ _).trans asked) rfl downgrade rfl closed kimi replayed
  refine ⟨(Audit.reserve space request identity s.asked d).after,result,?_,replayed⟩
  unfold send
  simp only [asked,if_true,reserving,Option.bind_eq_bind,Option.bind_some,ran]
  rfl

-- A call meets a request that is not retained. What its native path returns is accepted by the
-- validator, and its terminal refused for want of room only; and for as long as the request is
-- retained no later call comes to the native path, submits or appends anything: it reports what
-- the first one left, pending or the answer of that native path, and the latter once it was returned.
theorem first_call_decides (before : Runs.Run (advance space request plan identity) Runs.Any Audit.emptyDisk early d)
    (fresh : retained space d request = none) (first : send space request plan identity d s = some (d₁,run₁)) (sane : Sane plan s.world) :
    (∀ r, Enters space request plan identity d s → native request plan s = .ok r → (auditTerminal r).valid = true ∧
      ∀ h, retained space (Audit.reserve space request identity s.asked d).after request = some h → Audit.validTimestamp s.told.stamp = true →
        (∃ accepted, (Audit.appendTerminal space request identity s.told (auditTerminal r)
          (Audit.reserve space request identity s.asked d).after).outcome = .ok accepted) ∨
        (Audit.appendTerminal space request identity s.told (auditTerminal r)
          (Audit.reserve space request identity s.asked d).after).outcome = .error .auditError) ∧
    ∀ events after s₂ last run₂, Runs.Run (advance space request plan identity) (Retaining space request) d₁ events after →
      (retained space after request).isSome = true → send space request plan identity after s₂ = some (last,run₂) →
      ¬ Enters space request plan identity after s₂ ∧ run₂.trace = [] ∧
      (Unhindered request plan s₂ → ∃ result, run₂.outcome = .ok result) ∧
      ∀ result, run₂.outcome = .ok result → result.replayed = true ∧
        (∃ h, retained space d₁ request = some h ∧
          if h.latest.isPending then Pending result
          else Enters space request plan identity d s ∧ Repeats (native request plan s) result) ∧
        ∀ answer, run₁.outcome = .ok answer → answer.outcome ≠ "audit_error" → Repeats (.ok answer) result := by
  have start : Left space d := run_left before .fresh
  have recordable : ∀ r, native request plan s = .ok r → Recordable plan r :=
    fun r answered => runNativeSend_recordable (sane_answered sane _) r answered
  refine ⟨fun r entering answered => ⟨(recordable r answered).accepted,fun h shows stamp => ?_⟩,
    fun events after s₂ last run₂ path kept again => ?_⟩
  · obtain ⟨_,_,reserved,reserving⟩ := entering
    cases Audit.reserved_begins start (stopped_ok reserving).1 shows
    have middle := (Audit.struck_kept start (Audit.perform_struck space (.reserve request identity s.asked) d)).1
    exact (Audit.terminal_taken middle shows (recordable r answered).accepted stamp).imp_left fun taken => ⟨_,taken⟩
  · have begun : (retained space d₁ request).isSome = true := by
      cases path with
      | nil => exact kept
      | cons retains _ _ => exact retains
    obtain ⟨h,shows⟩ := Option.isSome_iff_exists.mp begun
    have left₁ := sent_left start first
    have later := run_same path left₁ shows kept
    have left₂ := run_left path left₁
    obtain ⟨history,returned⟩ := first_history start fresh first shows
    have mine : Audit.recordIdentity h.latest = Audit.identityTuple identity space := by
      rcases history with rfl | ⟨_,t,_,latest⟩
      · rfl
      · rw [latest]
        rfl
    have outside : ¬ Enters space request plan identity after s₂ := retained_outside left₂ later
    obtain ⟨quiet,_,replays⟩ := send_outside outside again
    refine ⟨outside,quiet,fun unhindered => ?_,fun result ended => ?_⟩
    · obtain ⟨_,result,answered,_⟩ := send_replays left₂ later mine unhindered
      cases again.symm.trans answered
      exact ⟨result,rfl⟩
    obtain ⟨receipt,answer,replayed⟩ := replays result ended
    rw [Audit.reserve_retained left₂ later,if_pos mine] at answer
    cases answer
    have repeats : ∀ t, tells (native request plan s) = [t] → h.latest = Audit.baseRecord request identity space s.told (some t) →
        result.replayed = true ∧ Repeats (native request plan s) result := by
      intro t told latest
      rw [latest] at replayed
      obtain ⟨marked,outcome,delivery,returncode,error⟩ := replayed_terminal rfl replayed
      exact ⟨marked,terminal_repeats recordable told outcome delivery returncode error⟩
    have found : result.replayed = true ∧ if h.latest.isPending then Pending result
        else Enters space request plan identity d s ∧ Repeats (native request plan s) result := by
      rcases history with rfl | ⟨entering,t,told,latest⟩
      · exact replayed_pending rfl replayed
      · obtain ⟨marked,answers⟩ := repeats t told latest
        rw [latest]
        exact ⟨marked,entering,answers⟩
    refine ⟨found.1,⟨h,shows,found.2⟩,fun answer ended fine => ?_⟩
    obtain ⟨answered,latest⟩ := returned answer ended fine
    rw [← answered]
    exact (repeats _ (by rw [answered]; rfl) latest).2

theorem send_told {held : Audit.Disk} (asked : asks (s.world.of request) plan s.allowWrite = true)
    (reserving : stopped (Audit.reserve space request identity s.asked d) d s.reserving = some (held,reply))
    (told : terminals (executeSend ((s.world.of request).answered reply) plan s.allowWrite).trace = [t])
    (appending : stopped (Audit.appendTerminal space request identity s.told t held) held s.appending = some (after,heard)) :
    send space request plan identity d s = some (after,executeSend (((s.world.of request).answered reply).heard heard) plan s.allowWrite) := by
  unfold send
  simp only [asked,if_true,reserving,Option.bind_eq_bind,Option.bind_some,told,appending]

theorem send_untold {held : Audit.Disk} (asked : asks (s.world.of request) plan s.allowWrite = true)
    (reserving : stopped (Audit.reserve space request identity s.asked d) d s.reserving = some (held,reply))
    (told : terminals (executeSend ((s.world.of request).answered reply) plan s.allowWrite).trace = []) :
    send space request plan identity d s = some (held,executeSend ((s.world.of request).answered reply) plan s.allowWrite) := by
  unfold send
  simp only [asked,if_true,reserving,Option.bind_eq_bind,Option.bind_some,told]

theorem performed_reserve (done : Audit.perform space (.reserve request identity now) d = (after,.reserved outcome)) :
    stopped (Audit.reserve space request identity now d) d none = some (after,outcome.mapError (.audit · none)) := by
  simp only [Audit.perform,Prod.mk.injEq,Audit.Reply.reserved.injEq] at done
  rw [stopped,done.1,done.2]

theorem performed_terminal (done : Audit.perform space (.appendTerminal request identity now terminal) d = (after,.settled outcome)) :
    stopped (Audit.appendTerminal space request identity now terminal d) d none = some (after,outcome.mapError (.audit · none)) ∧
      ∀ e, stopped (Audit.appendTerminal space request identity now terminal d) d (some (after,e)) = some (after,.error e) := by
  simp only [Audit.perform,Prod.mk.injEq,Audit.Reply.settled.injEq] at done
  refine ⟨by rw [stopped,done.1,done.2],fun e => if_pos ?_⟩
  rw [← done.1]
  exact Audit.appendTerminal_ends space

theorem stopped_before (attempt : Audit.Attempt α) (d : Audit.Disk) (e : Raised) : stopped attempt d (some (d,e)) = some (d,.error e) :=
  if_pos (.inl rfl)

theorem advance_other (apart : call.requestId ≠ request) (done : Audit.perform space call d = (after,reply)) :
    advance space request plan identity d (.other call none) = some after := by
  simp only [advance,if_neg apart,done]

theorem advance_sent (done : send space request plan identity d s = some (after,run)) :
    advance space request plan identity d (.sent s) = some after := by
  simp only [advance,done,Option.map_some]

def demoPlan : SendPlan := ⟨"claude","s1","argv-resume"⟩
def demoWorld : World := {calm with refreshed := demoPlan}
def demoSent : Sent := ⟨demoWorld,true,Audit.demoClock 1,none,Audit.demoClock 1,none⟩

def demoLogs : List Audit.Record → Audit.Disk := fun records => (⟨none,records⟩ : Audit.Logs).disk
def demoA : Audit.Record := Audit.demoReserved "a" 0
def demoB : Audit.Record := Audit.demoReserved "b" 1
def demoC : Audit.Record := Audit.demoReserved "c" 1

-- The terminal is written, and what comes after the write fails.
def demoUnsynced : Sent := {demoSent with appending := some (demoLogs [demoA,demoB,Audit.demoSettled "b"],.audit .auditError none)}
-- A retry whose reservation fails before it reads anything.
def demoFailing (d : Audit.Disk) : Sent := {demoSent with reserving := some (d,.audit .auditError none)}

theorem demo_reserved : Audit.perform Audit.demoSpace (.reserve "b" Audit.demoIdentity (Audit.demoClock 1)) (demoLogs [demoA]) =
    (demoLogs [demoA,demoB],.reserved (.ok none)) :=
  (Audit.scene_reserve (show (⟨none,[demoA]⟩ : Audit.Logs).Stored Audit.demoSpace from ⟨Audit.sound_nil,Audit.demoReserved_sound⟩)
    Audit.scene_alone (by decide) (by decide) (show Audit.Holds _ "b" none from rfl) le_rfl).1
    (Audit.scene_room Audit.scene_alone (Audit.demoReserved_written (by decide) le_rfl) (by decide))

theorem demo_settled : Audit.perform Audit.demoSpace (.appendTerminal "b" Audit.demoIdentity (Audit.demoClock 1) Audit.demoDelivered)
    (demoLogs [demoA,demoB]) = (demoLogs [demoA,demoB,Audit.demoSettled "b"],.settled (.ok (Audit.receipt (Audit.demoSettled "b")))) :=
  (Audit.scene_settle Audit.demo_storedB Audit.demo_sceneB (by decide) (by decide) (by decide) Audit.demo_openB).1
    (Audit.scene_room Audit.demo_sceneB (Audit.demoSettled_written (by decide)) (by decide))

theorem demo_terminals : terminals (executeSend ((demoWorld.of "b").answered (.ok none)) demoPlan true).trace = [Audit.demoDelivered] := by
  decide +kernel

theorem demo_send : send Audit.demoSpace "b" demoPlan Audit.demoIdentity (demoLogs [demoA]) demoSent =
    some (demoLogs [demoA,demoB,Audit.demoSettled "b"],
      executeSend (((demoWorld.of "b").answered (.ok none)).heard (.ok (Audit.receipt (Audit.demoSettled "b")))) demoPlan true) :=
  send_told (by decide) (performed_reserve demo_reserved) demo_terminals (performed_terminal demo_settled).1

theorem demo_unsynced : send Audit.demoSpace "b" demoPlan Audit.demoIdentity (demoLogs [demoA]) demoUnsynced =
    some (demoLogs [demoA,demoB,Audit.demoSettled "b"],
      executeSend (((demoWorld.of "b").answered (.ok none)).heard (.error (.audit .auditError none))) demoPlan true) :=
  send_told (by decide) (performed_reserve demo_reserved) demo_terminals ((performed_terminal demo_settled).2 _)

theorem scene_settled (scene : Audit.Scene records opened) (apart : name ≠ "a") (valid : Audit.requestIdRe name = true)
    (held : Audit.Holds records name (some (.reserved (Audit.demoReserved name 1)))) :
    Audit.Scene (records ++ [Audit.demoSettled name]) opened := by
  have settled := held.settle (show (Audit.demoSettled name).isPending = false from rfl) rfl rfl
  refine ⟨Audit.each_snoc scene.written (Audit.demoSettled_written valid),Audit.readable_snoc scene.readable settled,
    fun request p shows => ?_,Audit.Holds.snoc apart scene.first⟩
  by_cases same : name = request
  · subst same
    cases settled.unique shows
  · exact scene.few request p ((Audit.Holds.other same).mp shows)

theorem scene_retained {logs : Audit.Logs} (stored : logs.Stored Audit.demoSpace) (readable : Audit.Readable logs.records)
    (holds : Audit.Holds logs.records request h) : retained Audit.demoSpace logs.disk request = h :=
  (Audit.retained_opened (Audit.logs_opened logs) request).trans (Audit.scene_shown stored readable holds)

theorem demo_sceneS : Audit.Scene [demoA,demoB,Audit.demoSettled "b"] ["a","b"] :=
  scene_settled Audit.demo_sceneB (by decide) (by decide) Audit.demo_openB

theorem demo_storedS : (⟨none,[demoA,demoB,Audit.demoSettled "b"]⟩ : Audit.Logs).Stored Audit.demoSpace :=
  ⟨Audit.sound_nil,Audit.sound_snoc Audit.demo_storedB.current (Audit.demoSettled_written (by decide)) rfl
    (Audit.scene_room Audit.demo_sceneB (Audit.demoSettled_written (by decide)) (by decide))⟩

theorem demo_holdsS : Audit.Holds [demoA,demoB,Audit.demoSettled "b"] "b" (some (.settled demoB (Audit.demoSettled "b"))) :=
  Audit.demo_openB.settle rfl rfl rfl

theorem demo_later : Audit.perform Audit.demoSpace (.reserve "c" Audit.demoIdentity (Audit.demoClock 1))
    (demoLogs [demoA,demoB,Audit.demoSettled "b"]) = (demoLogs [demoA,demoB,Audit.demoSettled "b",demoC],.reserved (.ok none)) :=
  (Audit.scene_reserve demo_storedS demo_sceneS (by decide) (by decide) (show Audit.Holds _ "c" none from rfl) le_rfl).1
    (Audit.scene_room demo_sceneS (Audit.demoReserved_written (by decide) le_rfl) (by decide))

theorem demo_kept : retained Audit.demoSpace (demoLogs [demoA,demoB,Audit.demoSettled "b",demoC]) "b" =
    some (.settled demoB (Audit.demoSettled "b")) := by
  have scene : Audit.Scene [demoA,demoB,Audit.demoSettled "b",demoC] ["a","b","c"] :=
    Audit.scene_reserved demo_sceneS (by decide) (show Audit.Holds _ "c" none from rfl)
  have stored : (⟨none,[demoA,demoB,Audit.demoSettled "b",demoC]⟩ : Audit.Logs).Stored Audit.demoSpace :=
    ⟨Audit.sound_nil,Audit.sound_snoc demo_storedS.current (Audit.demoReserved_written (by decide) le_rfl) rfl
      (Audit.scene_room demo_sceneS (Audit.demoReserved_written (by decide) le_rfl) (by decide))⟩
  exact scene_retained stored scene.readable (Audit.Holds.snoc (by decide) demo_holdsS)

theorem demo_sane : Sane demoPlan demoSent.world where
  agent := rfl
  kimi := by decide
  ran := by rintro _ ⟨⟩; rfl
  unstarted := nofun
  observed := nofun
  codes := by
    intro code inside
    have listed : demoSent.world.exchange.snags = [.timeout] := rfl
    rw [listed] at inside
    cases List.mem_singleton.mp inside

def demoRetry : Sent := {demoSent with asked := Audit.demoClock 2}

theorem demo_before : Runs.Run (advance Audit.demoSpace "b" demoPlan Audit.demoIdentity) Runs.Any Audit.emptyDisk
    [.other (.reserve "a" Audit.demoIdentity (Audit.demoClock 0)) none] (demoLogs [demoA]) :=
  .single trivial (advance_other (by decide) Audit.demo_begins)

theorem demo_fresh : retained Audit.demoSpace (demoLogs [demoA]) "b" = none :=
  scene_retained ⟨Audit.sound_nil,Audit.demoReserved_sound⟩ Audit.scene_alone.readable (show Audit.Holds [demoA] "b" none from rfl)

theorem demo_delivered : retained Audit.demoSpace (demoLogs [demoA,demoB,Audit.demoSettled "b"]) "b" =
    some (.settled demoB (Audit.demoSettled "b")) :=
  scene_retained demo_storedS demo_sceneS.readable demo_holdsS

theorem demo_failing (d : Audit.Disk) : send Audit.demoSpace "b" demoPlan Audit.demoIdentity d (demoFailing d) =
    some (d,executeSend ((demoWorld.of "b").answered (.error (.audit .auditError none))) demoPlan true) :=
  send_untold (show asks (demoWorld.of "b") demoPlan true = true by decide) (stopped_before _ _ _)
    (show terminals (executeSend ((demoWorld.of "b").answered (.error (.audit .auditError none))) demoPlan true).trace = [] by decide +kernel)

-- Another request is reserved, and a retry fails.
theorem demo_path : Runs.Run (advance Audit.demoSpace "b" demoPlan Audit.demoIdentity) (Retaining Audit.demoSpace "b")
    (demoLogs [demoA,demoB,Audit.demoSettled "b"])
    [.other (.reserve "c" Audit.demoIdentity (Audit.demoClock 1)) none,.sent (demoFailing (demoLogs [demoA,demoB,Audit.demoSettled "b",demoC]))]
    (demoLogs [demoA,demoB,Audit.demoSettled "b",demoC]) := by
  have failed := demo_failing (demoLogs [demoA,demoB,Audit.demoSettled "b",demoC])
  refine .cons ?_ (advance_other (by decide) demo_later) (.single ?_ (advance_sent failed))
  · rw [Retaining,demo_delivered]
    rfl
  · rw [Retaining,demo_kept]
    rfl

theorem demo_unhindered : Unhindered "b" demoPlan demoRetry := ⟨by decide,rfl,rfl,rfl,rfl⟩

theorem demo_mine : Audit.recordIdentity (History.settled demoB (Audit.demoSettled "b")).latest =
    Audit.identityTuple Audit.demoIdentity Audit.demoSpace := rfl

-- The delivery is reported again, after another request and a retry that fails.
theorem retries_replay : ∃ run last result,
    send Audit.demoSpace "b" demoPlan Audit.demoIdentity (demoLogs [demoA]) demoSent = some (demoLogs [demoA,demoB,Audit.demoSettled "b"],run) ∧
    .released ∈ run.trace ∧
    send Audit.demoSpace "b" demoPlan Audit.demoIdentity (demoLogs [demoA,demoB,Audit.demoSettled "b",demoC]) demoRetry =
      some (last,⟨[],.ok result⟩) ∧
    result.replayed = true ∧ result.outcome = "completed" ∧ result.delivery = "delivered" ∧ result.returncode = some 0 ∧ result.errorCode = none := by
  obtain ⟨last,result,again,_⟩ := send_replays (run_left demo_path (.logs _ demo_storedS)) demo_kept demo_mine demo_unhindered
  have decides := first_call_decides demo_before demo_fresh demo_send demo_sane
  obtain ⟨_,_,_,reports⟩ := decides.2 _ _ _ _ _ demo_path (by rw [demo_kept]; rfl) again
  obtain ⟨marked,_,answers⟩ := reports result rfl
  obtain ⟨outcome,delivery,returncode,error⟩ := answers _ (show _ = Except.ok _ from rfl) (by decide)
  exact ⟨_,last,result,demo_send,by decide,again,marked,outcome,delivery,returncode,error⟩

-- The terminal is there although append_terminal failed: the first call reports audit_error, the
-- second one the delivery, and a third one whose reservation fails reports nothing.
theorem unsynced_delivered : ∃ run answer last result failed,
    send Audit.demoSpace "b" demoPlan Audit.demoIdentity (demoLogs [demoA]) demoUnsynced = some (demoLogs [demoA,demoB,Audit.demoSettled "b"],run) ∧
    run.outcome = .ok answer ∧ answer.outcome = "audit_error" ∧
    retained Audit.demoSpace (demoLogs [demoA,demoB,Audit.demoSettled "b"]) "b" = some (.settled demoB (Audit.demoSettled "b")) ∧
    send Audit.demoSpace "b" demoPlan Audit.demoIdentity (demoLogs [demoA,demoB,Audit.demoSettled "b"]) demoRetry =
      some (last,⟨[],.ok result⟩) ∧
    result.replayed = true ∧ result.outcome = "completed" ∧ result.delivery = "delivered" ∧
    send Audit.demoSpace "b" demoPlan Audit.demoIdentity (demoLogs [demoA,demoB,Audit.demoSettled "b"])
      (demoFailing (demoLogs [demoA,demoB,Audit.demoSettled "b"])) = some (demoLogs [demoA,demoB,Audit.demoSettled "b"],failed) ∧
    failed.outcome = .error (sendErrorFromAudit .auditError none) := by
  obtain ⟨last,result,again,replayed⟩ := send_replays (.logs _ demo_storedS) demo_delivered demo_mine demo_unhindered
  obtain ⟨marked,outcome,delivery,_⟩ := replayed_terminal rfl replayed
  exact ⟨_,_,last,result,_,demo_unsynced,(show _ = Except.ok _ from rfl),by decide,demo_delivered,again,marked,outcome,delivery,
    demo_failing _,(show _ = Except.error _ from rfl)⟩

end AgentSideCar.Send
