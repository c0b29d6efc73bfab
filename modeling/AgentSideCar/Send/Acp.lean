import AgentSideCar.Audit.Record
import AgentSideCar.Library.Traced

namespace AgentSideCar.Send
open Audit (AuditError Terminal)

-- An exception that is none of the package's own, and any exception.
inductive Foreign where
  | timeoutExpired (cleanupIncomplete : Bool)
  | containmentUnsupported
  | osError
  | keyboardInterrupt
  | systemExit
  | other
  deriving DecidableEq

inductive Raised where
  | send (code : String) (detail : Option String)
  | audit (error : AuditError) (detail : Option String)
  | foreign (e : Foreign)
  deriving DecidableEq

def Foreign.isException : Foreign → Bool
  | .keyboardInterrupt | .systemExit => false
  | _ => true
def Raised.isException : Raised → Bool
  | .foreign e => e.isException
  | _ => true

-- The package's own exceptions: a SendError, and the AuditError that becomes one.
def Ours : Raised → Prop
  | .foreign _ => False
  | _ => True

-- What a send does to the world: the gate is opened after the pre-spawn hook, bytes of the
-- prompt frame cross the child's stdin, a terminal is appended to the audit.
inductive Effect where
  | released
  | prompt (bytes : List UInt8)
  | terminal (t : Terminal)
  deriving DecidableEq

def Submits : Effect → Prop
  | .terminal _ => False
  | _ => True

abbrev Run (α : Type) := Traced Effect Raised α

section WriteLine

-- What ends an exchange with the child; an escape is caught by nobody in run_kimi_acp.
inductive Snag where
  | driver (code : String)
  | timeout
  | overflow
  | eof
  | cancelled
  | duplex
  | containment
  | os
  | escape (e : Foreign)
  deriving DecidableEq

def Snag.code : Snag → String
  | .driver code => code
  | .timeout => "timeout"
  | .overflow => "output_overflow"
  | .eof => "protocol_error"
  | .cancelled => "cancelled"
  | .duplex => "protocol_error"
  | .containment => "containment_unsupported"
  | .os => "spawn_error"
  | .escape _ => "protocol_error"

-- One turn of write_line's loop; when the list ends, so has the deadline. What is read after a
-- write may still raise; an interrupt may come when os.write has returned and nothing is counted yet.
inductive Poll where
  | expired
  | idle
  | raised (snag : Snag)
  | broken
  | wrote (count : Nat) (trouble : Option Snag)
  | interrupted (count : Nat)

def chunkSize : Nat := 65536
def newline : UInt8 := 10

def segment (payload : List UInt8) (written : Nat) : List UInt8 :=
  if written < payload.length then (payload.drop written).take chunkSize else [newline]

-- The bytes that crossed, the count recorded last, and what was raised.
structure LineWrite where
  crossed : List UInt8
  written : Nat
  raised : Option Snag

def pushLine (payload : List UInt8) : Nat → List Poll → LineWrite
  | written,[] => ⟨[],written,none⟩
  | written,poll :: rest =>
    if payload.length < written then ⟨[],written,none⟩
    else match poll with
      | .expired => ⟨[],written,none⟩
      | .idle => pushLine payload written rest
      | .raised snag => ⟨[],written,some snag⟩
      | .broken => ⟨[],written,none⟩
      | .wrote count trouble =>
        let bytes := (segment payload written).take count
        if bytes = [] then ⟨[],written,none⟩
        else match trouble with
          | some snag => ⟨bytes,written + bytes.length,some snag⟩
          | none =>
            let later := pushLine payload (written + bytes.length) rest
            {later with crossed := bytes ++ later.crossed}
      | .interrupted count => ⟨(segment payload written).take count,written,some (.escape .keyboardInterrupt)⟩

inductive PromptWriteBoundary where
  | none
  | partially
  | complete
  deriving DecidableEq

def writeBoundary (written total : Nat) : PromptWriteBoundary :=
  if written = 0 then .none else if total ≤ written then .complete else .partially

end WriteLine

inductive AcpPhase where
  | new
  | initialized
  | listed
  | resumed
  | modeSet
  | promptWritten
  | promptSettled
  deriving DecidableEq

structure DuplexProcessResult where
  returncode : Option Int
  cleanExit : Bool
  cleanupComplete : Bool

structure KimiAcpResult where
  phase : AcpPhase
  promptWrite : PromptWriteBoundary
  stopReason : Option String
  responseText : String
  returncode : Option Int
  cleanExit : Bool
  cleanupComplete : Bool
  errorCode : Option String

-- How the child, the clock and the validators behave along one exchange: the phase reached
-- before the prompt and what ended it there, what write_line raises before it records anything,
-- its loop, the reading of the prompt's response, what follows it, and the cleanup.
structure Exchange where
  setup : AcpPhase × Option Snag
  unwritten : Option Snag
  polls : List Poll
  settled : Except Snag String
  trailing : Option Snag
  waited : DuplexProcessResult
  cleanup : Option Foreign
  observed : Option DuplexProcessResult
  responseText : String

section Driver
variable (x : Exchange)

-- The excepts and the finally of run_kimi_acp. While an exception escapes, the cleanup's own
-- are swallowed.
def finishAcp (phase : AcpPhase) (promptWrite : PromptWriteBoundary) (stopReason : Option String) (snag : Option Snag) :
    Run KimiAcpResult :=
  match snag,x.cleanup with
  | some (.escape e),_ => .raise (.foreign e)
  | _,some e => .raise (.foreign e)
  | snag,none =>
    let ended := if snag = none ∧ stopReason.isSome then
        if !x.waited.cleanupComplete then some "cleanup_incomplete"
        else if x.waited.returncode ≠ some 0 ∨ !x.waited.cleanExit then some "native_exit"
        else none
      else snag.map Snag.code
    .done {
      phase := phase
      promptWrite := promptWrite
      stopReason := stopReason
      responseText := x.responseText
      returncode := x.observed.bind DuplexProcessResult.returncode
      cleanExit := x.observed.any DuplexProcessResult.cleanExit
      cleanupComplete := x.observed.any DuplexProcessResult.cleanupComplete
      errorCode := if x.observed.any (!·.cleanupComplete) then some "cleanup_incomplete" else ended}

-- The bytes that the child has taken, whatever becomes of the exchange.
def crossing (bytes : List UInt8) : Run Unit := if bytes = [] then .done () else .emit (.prompt bytes)

def readResponse : Run KimiAcpResult :=
  match x.settled with
  | .error snag => finishAcp x .promptWritten .complete none (some snag)
  | .ok stopReason => finishAcp x .promptSettled .complete (some stopReason) x.trailing

def writePrompt (frame : List UInt8) : Run KimiAcpResult :=
  match x.unwritten with
  | some snag => finishAcp x .modeSet .none none (some snag)
  | none =>
    let line := pushLine frame 0 x.polls
    let boundary := writeBoundary line.written (frame.length + 1)
    (crossing line.crossed).bind fun _ => match line.raised,boundary with
      | some snag,.complete => finishAcp x .promptWritten .complete none (some snag)
      | some snag,boundary => finishAcp x .modeSet boundary none (some snag)
      | none,.complete => readResponse x
      | none,boundary => finishAcp x .modeSet boundary none (some (.driver "timeout"))

def callbackErrorCodes : List String := ["invalid_session","session_busy","session_changed","session_unavailable"]
def callbackFailureCode : Raised → String
  | .send code _ => if code ∈ callbackErrorCodes then code else "session_changed"
  | _ => "session_changed"

def runKimiAcp (frame : List UInt8) (beforePrompt : Run Unit) : Run KimiAcpResult :=
  match x.setup with
  | (phase,some snag) => finishAcp x phase .none none (some snag)
  | (_,none) => beforePrompt.attempt (fun _ => writePrompt x frame) fun e =>
      if e.isException then finishAcp x .modeSet .none none (some (.driver (callbackFailureCode e)))
      else .raise e

end Driver

variable {x : Exchange}

theorem pushLine_counts (payload : List UInt8) (polls : List Poll) (written : Nat) :
    (pushLine payload written polls).written = written + (pushLine payload written polls).crossed.length ∨
      (pushLine payload written polls).raised = some (.escape .keyboardInterrupt) := by
  induction polls generalizing written with
  | nil => exact .inl rfl
  | cons poll rest ih =>
    unfold pushLine
    split
    · exact .inl rfl
    · cases poll with
      | expired => exact .inl rfl
      | idle => exact ih written
      | raised snag => exact .inl rfl
      | broken => exact .inl rfl
      | interrupted count => exact .inr rfl
      | wrote count trouble =>
        simp only
        split
        · exact .inl rfl
        · cases trouble with
          | some snag => exact .inl rfl
          | none =>
            rcases ih (written + ((segment payload written).take count).length) with counts | struck
            · refine .inl (counts.trans ?_)
              rw [List.length_append,Nat.add_assoc]
            · exact .inr struck

theorem writeBoundary_none {written total : Nat} (none' : writeBoundary written total = .none) : written = 0 := by
  unfold writeBoundary at none'
  split at none'
  · assumption
  · split at none' <;> cases none'

theorem finishAcp_quiet {phase : AcpPhase} {promptWrite : PromptWriteBoundary} {stopReason : Option String} {snag : Option Snag} :
    (finishAcp x phase promptWrite stopReason snag).Quiet Submits := by
  unfold finishAcp
  split <;> exact nofun

theorem finishAcp_mild {phase : AcpPhase} {promptWrite : PromptWriteBoundary} {stopReason : Option String} {snag : Option Snag} :
    (finishAcp x phase promptWrite stopReason snag).Mild Ours := by
  unfold finishAcp
  split
  · exact .raise id
  · exact .raise id
  · exact .done

theorem finishAcp_reports {phase : AcpPhase} {promptWrite : PromptWriteBoundary} {stopReason : Option String} {snag : Option Snag}
    (ended : (finishAcp x phase promptWrite stopReason snag).outcome = .ok result) :
    result.promptWrite = promptWrite ∧ ∀ e, snag ≠ some (.escape e) := by
  unfold finishAcp at ended
  split at ended
  · cases ended
  · cases ended
  · rename_i other _
    cases ended
    exact ⟨rfl,fun e same => other e same⟩

theorem crossing_mild (bytes : List UInt8) : (crossing bytes).Mild Ours := by
  unfold crossing
  split
  · exact .done
  · exact .emit

theorem readResponse_mild : (readResponse x).Mild Ours := by
  unfold readResponse
  split <;> exact finishAcp_mild

theorem writePrompt_mild (frame : List UInt8) : (writePrompt x frame).Mild Ours := by
  unfold writePrompt
  split
  · exact finishAcp_mild
  · refine (crossing_mild _).bind fun _ _ => ?_
    split
    · exact finishAcp_mild
    · exact finishAcp_mild
    · exact readResponse_mild
    · exact finishAcp_mild

theorem not_ours {e : Raised} (escapes : ¬ e.isException = true) : ¬ Ours e := by
  cases e with
  | foreign e => exact id
  | send code detail => exact absurd rfl escapes
  | audit error detail => exact absurd rfl escapes

theorem runKimiAcp_mild (frame : List UInt8) (beforePrompt : Run Unit) : (runKimiAcp x frame beforePrompt).Mild Ours := by
  unfold runKimiAcp
  split
  · exact finishAcp_mild
  · refine .attempt (fun _ _ => writePrompt_mild frame) fun e _ => ?_
    split
    · exact finishAcp_mild
    · rename_i escapes
      exact .raise (not_ours escapes)

theorem readResponse_reports (ended : (readResponse x).outcome = .ok result) : result.promptWrite = .complete := by
  unfold readResponse at ended
  split at ended <;> exact (finishAcp_reports ended).1

-- A result without a written prompt comes from an exchange in which no byte of it crossed.
theorem writePrompt_unwritten {frame : List UInt8} (ended : (writePrompt x frame).outcome = .ok result)
    (none' : result.promptWrite = .none) : (writePrompt x frame).Quiet Submits := by
  unfold writePrompt at ended ⊢
  split at ended
  · exact finishAcp_quiet
  · simp only at ended ⊢
    generalize sent : pushLine frame 0 x.polls = line at ended ⊢
    have counts := pushLine_counts frame x.polls 0
    rw [sent] at counts
    by_cases crossed : line.crossed = []
    · refine .bind ?_ fun _ _ => ?_
      · unfold crossing
        rw [if_pos crossed]
        exact .done
      · split
        · exact finishAcp_quiet
        · exact finishAcp_quiet
        · unfold readResponse
          split <;> exact finishAcp_quiet
        · exact finishAcp_quiet
    · exfalso
      have some' := List.length_pos_of_ne_nil crossed
      unfold crossing Traced.bind Traced.attempt at ended
      rw [if_neg crossed] at ended
      simp only [Traced.emit] at ended
      split at ended
      · have reported := (finishAcp_reports ended).1
        rw [none'] at reported
        cases reported
      · rename_i snag struck _
        obtain ⟨reported,caught⟩ := finishAcp_reports ended
        rcases counts with counts | interrupt
        · have := writeBoundary_none (reported.symm.trans none')
          omega
        · exact caught _ (struck.symm.trans interrupt)
      · rw [readResponse_reports ended] at none'
        cases none'
      · rename_i clear _
        obtain ⟨reported,_⟩ := finishAcp_reports ended
        rcases counts with counts | interrupt
        · have := writeBoundary_none (reported.symm.trans none')
          omega
        · rw [clear] at interrupt
          cases interrupt

theorem runKimiAcp_unwritten {frame : List UInt8} {beforePrompt : Run Unit} (hook : beforePrompt.Quiet Submits)
    (ended : (runKimiAcp x frame beforePrompt).outcome = .ok result) (none' : result.promptWrite = .none) :
    (runKimiAcp x frame beforePrompt).Quiet Submits := by
  unfold runKimiAcp at ended ⊢
  split at ended
  · exact finishAcp_quiet
  · unfold Traced.attempt at ended ⊢
    split at ended
    · exact hook.after (writePrompt_unwritten ended none')
    · refine hook.after ?_
      simp only
      split
      · exact finishAcp_quiet
      · exact .raise

end AgentSideCar.Send
