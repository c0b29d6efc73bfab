import AgentSideCar.Audit.Identity
import AgentSideCar.Send.Acp

namespace AgentSideCar.Send
open Audit (AuditError AuditReceipt Terminal)

structure SendPlan where
  agent : String
  sessionId : String
  transport : String
  deriving DecidableEq

structure SendResult where
  agent : String
  sessionId : String
  outcome : String
  delivery : String
  returncode : Option Int := none
  response : String := ""
  stderr : String := ""
  errorCode : Option String := none
  overflow : Option String := none
  overflowLimit : Option Nat := none
  requestId : String := ""
  replayed : Bool := false
  deriving DecidableEq

structure BoundedProcessResult where
  returncode : Option Int
  overflow : Option String
  cleanupIncomplete : Bool

-- The calls made while nothing of the message has left, which may raise whatever they want.
inductive Check where
  | timeout | plan | refresher | kimiRuntime | bindKimi | probeVersion | probeInitialize | requestId | identity
  | openNamespace | reserve | downgradeMarker
  | sessionLock | refreshedPlan | lockNamespace | preflight
  | spawnLock | spawnPreflight
  | evidence | kimiManifest | kimiVersion | kimiProcesses | monotonic
  | promptLock | promptManifest | promptVersion | promptIdentity | promptProcesses | promptBoundary

-- The calls that raise none of the package's own exceptions.
inductive Slip where
  | closeKimi | closeNamespace | unlock | closeEvidence
  | spawn | gate | forceCleanup | renderOutput | boundedResponse

-- How everything execute_send calls behaves along one run.
structure World where
  check : Check → Option Raised
  slip : Slip → Option Foreign
  requestId : String
  replay : Option AuditReceipt
  refreshed : SendPlan
  -- run_bounded answers or raises before it spawns anything, or after the gate is open.
  unstarted : Option (Except Foreign BoundedProcessResult)
  ran : Except Foreign BoundedProcessResult
  rendered : String × String × Bool
  frame : List UInt8
  exchange : Exchange
  response : String
  completed : Except Raised Bool
  appended : Option Raised

def errorCodes : List String := ["invalid_message_type","invalid_message_utf8","blank_message","message_nul","message_too_large",
  "stdin_interactive","stdin_unreadable","invalid_session","unsupported_agent","unsupported_cursor_ide","unsupported_copilot",
  "unsupported_kimi","unsupported_dsh","working_session","dead_session","child_session","remote_session","invalid_session_id",
  "invalid_project","executable_not_found","invalid_executable","write_not_allowed","invalid_timeout","invalid_plan",
  "revalidation_required","session_busy","unsafe_lock","session_changed","session_unavailable","protocol_error","timeout",
  "cancelled","containment_unsupported","cleanup_incomplete","spawn_error","native_exit","output_overflow","audit_corrupt",
  "audit_error","invalid_request_id","request_conflict"]
def sendOutcomes : List String := ["completed","failed","timed_out","overflow","request_pending","audit_error"]
def deliveryStates : List String := ["delivered","unknown"]
def maxMessageBytes : Nat := 16 * 1024
def maxStdoutBytes : Nat := 4 * 1024 * 1024
def maxStderrBytes : Nat := 64 * 1024

-- The constructors of SendError and SendResult refuse what is not in their tables.
def sendError (code : String) (detail : Option String) : Raised :=
  if code ∈ errorCodes then .send code detail else .foreign .other
def SendResult.valid (r : SendResult) : Bool :=
  (r.requestId = "" || Audit.requestIdRe r.requestId) && r.outcome ∈ sendOutcomes && r.delivery ∈ deliveryStates
    && !(r.delivery = "delivered" && (r.outcome ≠ "completed" || r.returncode ≠ some 0))
def sendResult (r : SendResult) : Run SendResult := if r.valid then .done r else .raise (.foreign .other)

def sendErrorFromAudit (error : AuditError) (detail : Option String) : Raised :=
  sendError (if error = .unsafeAudit then "unsafe_lock" else error.code) detail

section Execute
variable (w : World)

def checked (c : Check) : Run Unit := .unlessRaised (w.check c)
def slipped (s : Slip) : Run Unit := .unlessRaised ((w.slip s).map .foreign)

def sessionLock (body : Run SendResult) : Run SendResult := do
  checked w .sessionLock
  body.ensuring (slipped w .unlock)

-- run_bounded under containment: the supervisor is spawned, the hook runs, and the gate opens.
def runBounded (hook : Run Unit) : Run BoundedProcessResult :=
  match w.unstarted with
  | some outcome => .quietly (outcome.mapError .foreign)
  | none => Traced.handled (do
      slipped w .spawn
      hook
      Traced.emit .released
      slipped w .gate
      Traced.quietly (w.ran.mapError .foreign)) fun e => do
    slipped w .forceCleanup
    Traced.raise e

def overflowLimit : Option String → Option Nat
  | some "input" => some maxMessageBytes
  | some "stdout" => some maxStdoutBytes
  | some "stderr" => some maxStderrBytes
  | _ => none

def completedResult (plan : SendPlan) (completed : BoundedProcessResult) : Run SendResult := do
  slipped w .renderOutput
  let (response,stderr,oversized) := w.rendered
  let overflow := completed.overflow.filter (· ∈ ["input","stdout","stderr"])
  let returncode := completed.returncode
  let base : SendResult :=
    {agent := plan.agent,sessionId := plan.sessionId,outcome := "failed",delivery := "unknown",returncode := returncode,
     response := response,stderr := stderr,requestId := w.requestId}
  match overflow.or (if oversized then some "output" else none) with
  | some kind => sendResult {base with
      outcome := "overflow",errorCode := some (kind ++ "_overflow"),overflow := some kind,overflowLimit := overflowLimit overflow}
  | none =>
    if completed.cleanupIncomplete then sendResult {base with
      outcome := if returncode = some 0 ∧ response ≠ "" then "completed" else "failed",errorCode := some "cleanup_incomplete"}
    else if returncode = some 0 then sendResult {base with outcome := "completed",delivery := "delivered"}
    else sendResult {base with errorCode := some "native_exit"}

def runnerFailed (plan : SendPlan) : Raised → Run SendResult
  | .foreign (.timeoutExpired cleanupIncomplete) => do
    slipped w .renderOutput
    let (response,stderr,_) := w.rendered
    sendResult {
      agent := plan.agent,sessionId := plan.sessionId,outcome := "timed_out",delivery := "unknown"
      response := response,stderr := stderr,requestId := w.requestId
      errorCode := some (if cleanupIncomplete then "cleanup_incomplete" else "timeout")}
  | .foreign .containmentUnsupported => sendResult {
      agent := plan.agent,sessionId := plan.sessionId,outcome := "failed",delivery := "unknown"
      errorCode := some "containment_unsupported",requestId := w.requestId}
  | .foreign .osError => sendResult {
      agent := plan.agent,sessionId := plan.sessionId,outcome := "failed",delivery := "unknown"
      errorCode := some "spawn_error",requestId := w.requestId}
  | e => .raise e

def revalidateAtSpawn : Run Unit := do
  checked w .spawnLock
  checked w .spawnPreflight

def beforePrompt : Run Unit := do
  checked w .promptLock
  checked w .promptManifest
  checked w .promptVersion
  checked w .promptIdentity
  checked w .promptProcesses
  checked w .promptBoundary

-- Whether the session's own records show the turn completed; any failure to read them says no.
def kimiCompleted (result : KimiAcpResult) : Run Bool :=
  if result.promptWrite = .complete ∧ result.phase = .promptSettled ∧ result.stopReason = some "end_turn"
      ∧ result.returncode = some 0 ∧ (result.errorCode = some "cleanup_incomplete"
        ∨ result.errorCode = none ∧ result.cleanExit = true ∧ result.cleanupComplete = true) then
    match w.completed with
    | .ok completed => .done completed
    | .error e => if e.isException then .done false else .raise e
  else .done false

-- What run_kimi_acp returned, once its prompt has begun to cross.
def kimiResult (result : KimiAcpResult) : Run SendResult := do
  let plan := w.refreshed
  let delivered ← kimiCompleted w result
  if delivered then sendResult {
    agent := plan.agent,sessionId := plan.sessionId,outcome := "completed"
    delivery := if result.cleanupComplete then "delivered" else "unknown"
    returncode := some 0,response := w.response,requestId := w.requestId}
  else
    let errorCode := if !result.cleanupComplete then "cleanup_incomplete" else result.errorCode.getD "protocol_error"
    sendResult {
      agent := plan.agent,sessionId := plan.sessionId
      outcome := if errorCode = "timeout" then "timed_out" else if errorCode = "output_overflow" then "overflow" else "failed"
      delivery := "unknown",returncode := result.returncode,response := w.response,errorCode := some errorCode
      requestId := w.requestId}

def runKimiSend : Run SendResult :=
  sessionLock w (Traced.ensuring (do
    checked w .refreshedPlan
    checked w .evidence
    checked w .lockNamespace
    checked w .kimiManifest
    checked w .kimiVersion
    checked w .kimiProcesses
    checked w .monotonic
    let result ← runKimiAcp w.exchange w.frame (beforePrompt w)
    slipped w .boundedResponse
    if result.promptWrite = .none then Traced.raise (sendError (result.errorCode.getD "protocol_error") none)
    else kimiResult w result) (slipped w .closeEvidence))

def runNativeSend (planned : SendPlan) : Run SendResult :=
  if planned.transport = "kimi_acp" then runKimiSend w
  else sessionLock w do
    checked w .refreshedPlan
    checked w .lockNamespace
    checked w .preflight
    (runBounded w (revalidateAtSpawn w)).attempt (completedResult w w.refreshed) (runnerFailed w w.refreshed)

def replayedSendResult (plan : SendPlan) (receipt : AuditReceipt) : Run SendResult :=
  sendResult {
    agent := receipt.agent
    sessionId := plan.sessionId
    outcome := if plan.agent = "kimi" ∧ receipt.outcome = "failed" ∧ receipt.delivery = "unknown" ∧ receipt.returncode = some 0
      ∧ receipt.error = none then "completed" else receipt.outcome
    delivery := receipt.delivery
    returncode := receipt.returncode
    errorCode := receipt.error
    requestId := receipt.requestId
    replayed := true}

def appendAuditFailureTerminal (code : String) : Run Unit := .emit (.terminal ⟨"failed","unknown",some code,none⟩)

def nativeFailed (e : Raised) : Run SendResult :=
  match e with
  | .foreign .keyboardInterrupt => do
    appendAuditFailureTerminal "interrupted"
    Traced.raise e
  | .audit error detail => match sendErrorFromAudit error detail with
    | .send code detail => do
      appendAuditFailureTerminal code
      Traced.raise (.send code detail)
    | e => .raise e
  | .send code _ => do
    appendAuditFailureTerminal code
    Traced.raise e
  | _ => do
    appendAuditFailureTerminal "execution_error"
    Traced.raise e

def auditTerminal (result : SendResult) : Terminal where
  outcome := if result.agent = "kimi" ∧ result.outcome = "completed" ∧ result.delivery = "unknown" then "failed" else result.outcome
  delivery := result.delivery
  error := result.errorCode
  returncode := result.returncode

def recorded (result : SendResult) : Run SendResult := do
  Traced.emit (.terminal (auditTerminal result))
  match w.appended with
  | none => Traced.done result
  | some e =>
    if e.isException then sendResult {
      agent := result.agent,sessionId := result.sessionId,outcome := "audit_error",delivery := "unknown"
      returncode := result.returncode,response := result.response,stderr := result.stderr,errorCode := some "audit_error"
      requestId := w.requestId}
    else Traced.raise e

def reservedSend (planned : SendPlan) : Run SendResult :=
  match w.replay with
  | some receipt => replayedSendResult planned receipt
  | none => (runNativeSend w planned).attempt (recorded w) nativeFailed

def reserved (planned : SendPlan) : Run SendResult := do
  checked w .openNamespace
  Traced.ensuring (do
    (checked w .reserve).ensuring (checked w .downgradeMarker)
    reservedSend w planned) (slipped w .closeNamespace)

def bindKimi (planned : SendPlan) : Run Unit :=
  if planned.transport = "kimi_acp" then do
    checked w .kimiRuntime
    checked w .bindKimi
    checked w .probeVersion
    checked w .probeInitialize
  else .done ()

def auditRaised : Raised → Run SendResult
  | .audit error detail => .raise (sendErrorFromAudit error detail)
  | e => .raise e

def executeSend (planned : SendPlan) (allowWrite : Bool) : Run SendResult :=
  if !allowWrite then .raise (sendError "write_not_allowed" none)
  else do
    checked w .timeout
    checked w .plan
    Traced.ensuring (Traced.handled (do
      checked w .refresher
      bindKimi w planned
      checked w .requestId
      checked w .identity
      reserved w planned) auditRaised) (slipped w .closeKimi)

end Execute

variable {w : World}

theorem checked_quiet (c : Check) : (checked w c).Quiet Submits := .unlessRaised
theorem slipped_quiet (s : Slip) : (slipped w s).Quiet Submits := .unlessRaised

theorem slipped_mild (s : Slip) : (slipped w s).Mild Ours := by
  unfold slipped
  cases w.slip s with
  | none => exact .done
  | some e => exact .raise id

theorem sendResult_quiet (r : SendResult) : (sendResult r).Quiet Submits := by
  unfold sendResult
  split <;> exact nofun

theorem sendResult_mild (r : SendResult) : (sendResult r).Mild Ours := by
  unfold sendResult
  split
  · exact .done
  · exact .raise id

theorem sessionLock_honest {body : Run SendResult} (honest : body.Honest Submits Ours) :
    (sessionLock w body).Honest Submits Ours :=
  .bind (checked_quiet _) fun _ _ => honest.ensuring (slipped_quiet _) (slipped_mild _)

theorem revalidateAtSpawn_quiet : (revalidateAtSpawn w).Quiet Submits :=
  .bind (checked_quiet _) fun _ _ => checked_quiet _

theorem beforePrompt_quiet : (beforePrompt w).Quiet Submits :=
  .bind (checked_quiet _) fun _ _ => .bind (checked_quiet _) fun _ _ => .bind (checked_quiet _) fun _ _ =>
    .bind (checked_quiet _) fun _ _ => .bind (checked_quiet _) fun _ _ => checked_quiet _

theorem runBounded_honest {hook : Run Unit} (quiet : hook.Quiet Submits) : (runBounded w hook).Honest Submits Ours := by
  unfold runBounded
  split
  · exact .of_quiet .quietly
  · refine Traced.Honest.attempt (.bind (slipped_quiet _) fun _ _ => .bind quiet fun _ _ => .of_mild ?_)
      (fun _ _ => .inr .done) (fun e _ _ => .of_quiet ?_) fun e _ other => ?_
    · refine .bind .emit fun _ _ => .bind (slipped_mild _) fun _ _ => ?_
      cases w.ran with
      | ok completed => exact .done
      | error e => exact .raise id
    · exact .bind (slipped_quiet _) fun _ _ => .raise
    · exact .bind (slipped_mild _) fun _ _ => .raise other

theorem completedResult_mild (plan : SendPlan) (completed : BoundedProcessResult) : (completedResult w plan completed).Mild Ours := by
  refine .bind (slipped_mild _) fun _ _ => ?_
  simp only
  split
  · exact sendResult_mild _
  · split
    · exact sendResult_mild _
    · split <;> exact sendResult_mild _

theorem runnerFailed_mild (plan : SendPlan) (e : Raised) (other : ¬ Ours e) : (runnerFailed w plan e).Mild Ours := by
  unfold runnerFailed
  split
  · exact .bind (slipped_mild _) fun _ _ => sendResult_mild _
  · exact sendResult_mild _
  · exact sendResult_mild _
  · exact .raise other

theorem runnerFailed_raises (plan : SendPlan) (e : Raised) (ours : Ours e) : (runnerFailed w plan e).Honest Submits Ours := by
  cases e with
  | foreign e => cases ours
  | send code detail => exact .of_quiet .raise
  | audit error detail => exact .of_quiet .raise

theorem kimiResult_mild (result : KimiAcpResult) : (kimiResult w result).Mild Ours := by
  have completing : (kimiCompleted w result).Mild Ours := by
    unfold kimiCompleted
    split
    · split
      · exact .done
      · split
        · exact .done
        · rename_i escapes
          exact .raise (not_ours escapes)
    · exact .done
  refine .bind completing fun _ _ => ?_
  split <;> exact sendResult_mild _

theorem runKimiSend_honest : (runKimiSend w).Honest Submits Ours := by
  refine sessionLock_honest (.ensuring ?_ (slipped_quiet _) (slipped_mild _))
  refine .bind (checked_quiet _) fun _ _ => .bind (checked_quiet _) fun _ _ => .bind (checked_quiet _) fun _ _ =>
    .bind (checked_quiet _) fun _ _ => .bind (checked_quiet _) fun _ _ => .bind (checked_quiet _) fun _ _ =>
      .bind (checked_quiet _) fun _ _ => ?_
  refine Traced.Honest.bind_of (.of_mild (runKimiAcp_mild _ _)) fun result ended => ?_
  by_cases none' : result.promptWrite = .none
  · refine .inl ⟨runKimiAcp_unwritten beforePrompt_quiet ended none',.bind (slipped_quiet _) fun _ _ => ?_⟩
    rw [if_pos none']
    exact .of_quiet .raise
  · refine .inr (.bind (slipped_mild _) fun _ _ => ?_)
    rw [if_neg none']
    exact kimiResult_mild result

theorem runNativeSend_honest (planned : SendPlan) : (runNativeSend w planned).Honest Submits Ours := by
  unfold runNativeSend
  split
  · exact runKimiSend_honest
  · refine sessionLock_honest (.bind (checked_quiet _) fun _ _ => .bind (checked_quiet _) fun _ _ =>
      .bind (checked_quiet _) fun _ _ => ?_)
    exact (runBounded_honest revalidateAtSpawn_quiet).attempt (fun _ _ => .inr (completedResult_mild _ _))
      (fun e _ => runnerFailed_raises _ e) fun e _ => runnerFailed_mild _ e

theorem recorded_mild (result : SendResult) : (recorded w result).Mild Ours := by
  refine .bind .emit fun _ _ => ?_
  split
  · exact .done
  · split
    · exact sendResult_mild _
    · rename_i e _ escapes
      exact .raise (not_ours escapes)

theorem terminal_quiet (t : Terminal) : (Traced.emit (.terminal t) : Run Unit).Quiet Submits := .emit id

theorem nativeFailed_quiet (e : Raised) : (nativeFailed e).Quiet Submits := by
  unfold nativeFailed
  split
  · exact .bind (terminal_quiet _) fun _ _ => .raise
  · split
    · exact .bind (terminal_quiet _) fun _ _ => .raise
    · exact .raise
  · exact .bind (terminal_quiet _) fun _ _ => .raise
  · exact .bind (terminal_quiet _) fun _ _ => .raise

theorem nativeFailed_mild (e : Raised) (other : ¬ Ours e) : (nativeFailed e).Mild Ours := by
  unfold nativeFailed
  split
  · exact .bind .emit fun _ _ => .raise other
  · exact absurd trivial other
  · exact absurd trivial other
  · exact .bind .emit fun _ _ => .raise other

theorem reservedSend_honest (planned : SendPlan) : (reservedSend w planned).Honest Submits Ours := by
  unfold reservedSend
  split
  · exact .of_quiet (sendResult_quiet _)
  · exact (runNativeSend_honest planned).attempt (fun _ _ => .inr (recorded_mild _))
      (fun e _ _ => .of_quiet (nativeFailed_quiet e)) fun e _ => nativeFailed_mild e

theorem bindKimi_quiet (planned : SendPlan) : (bindKimi w planned).Quiet Submits := by
  unfold bindKimi
  split
  · exact .bind (checked_quiet _) fun _ _ => .bind (checked_quiet _) fun _ _ => .bind (checked_quiet _) fun _ _ => checked_quiet _
  · exact .done

-- A SendError, or the AuditError it is made of, comes only of a run that has submitted nothing.
theorem executeSend_honest (planned : SendPlan) (allowWrite : Bool) : (executeSend w planned allowWrite).Honest Submits Ours := by
  have reserving : (reserved w planned).Honest Submits Ours := by
    refine .bind (checked_quiet _) fun _ _ => .ensuring (.bind ?_ fun _ _ => reservedSend_honest planned) (slipped_quiet _) (slipped_mild _)
    exact (checked_quiet _).ensuring (checked_quiet _)
  unfold executeSend
  split
  · exact .of_quiet .raise
  · refine .bind (checked_quiet _) fun _ _ => .bind (checked_quiet _) fun _ _ => .ensuring ?_ (slipped_quiet _) (slipped_mild _)
    refine Traced.Honest.attempt (.bind (checked_quiet _) fun _ _ => .bind (bindKimi_quiet _) fun _ _ => .bind (checked_quiet _)
      fun _ _ => .bind (checked_quiet _) fun _ _ => reserving) (fun _ _ => .inr .done) (fun e _ _ => .of_quiet ?_) fun e _ other => ?_
    · unfold auditRaised
      split <;> exact .raise
    · unfold auditRaised
      split
      · exact absurd trivial other
      · exact .raise other

-- A run in which every call does what it should.
def calm : World where
  check := fun _ => none
  slip := fun _ => none
  requestId := "r1"
  replay := none
  refreshed := ⟨"codex","s1","argv-resume"⟩
  unstarted := none
  ran := .ok ⟨some 0,none,false⟩
  rendered := ("done","",false)
  frame := []
  exchange := ⟨(.modeSet,none),none,[],.error .timeout,none,⟨none,true,true⟩,none,none,""⟩
  response := ""
  completed := .ok false
  appended := none

example : (executeSend calm calm.refreshed true).trace = [.released,.terminal ⟨"completed","delivered",none,some 0⟩] := by
  decide +kernel

end AgentSideCar.Send
