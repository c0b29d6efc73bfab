import AgentSideCar.Plugin.InjectGateway
import AgentSideCar.Send.Execute

namespace AgentSideCar.SendCli
open InjectGateway (InjectTarget InjectOutcome InjectResult)

-- A JSON value as far as a receipt reads it; an object has each key once.
inductive Json where
  | text (value : String)
  | bool (value : Bool)
  | other

structure Record where
  fields : List (String × Json)
  unique : (fields.map Prod.fst).Nodup

def Record.text (record : Record) (key : String) : Option String :=
  match record.fields.lookup key with
  | some (.text value) => some value
  | _ => none

-- Buffer.toString, and JSON.parse where what it reads is an object: nothing here depends on
-- what they take for one.
structure Runtime where
  utf8 : List UInt8 → String
  parse : String → Option Record

structure Request where
  target : InjectTarget
  requestId : String
  message : String

structure Options where
  hardTimeoutMs : Nat

-- BoundedCollector.append.
def collect (limit : Nat) (held chunk : List UInt8) : List UInt8 := held ++ chunk.take (limit - held.length)
def maxStdoutBytes : Nat := 8 * 1024 * 1024
def stderrDetailBytes : Nat := 2 * 1024

structure ParsedReceipt where
  delivered : Bool
  agent : Option String
  sessionId : Option String
  requestId : Option String
  errorCode : Option String
  replayed : Bool

def nonempty (value : Option String) : Option String := value.filter (· ≠ "")

def parseReceipt (record : Record) : Option ParsedReceipt :=
  let receipt (delivered : Bool) : ParsedReceipt :=
    ⟨delivered,record.text "agent",record.text "session_id",record.text "request_id",nonempty (record.text "error_code"),
     match record.fields.lookup "replayed" with | some (.bool true) => true | _ => false⟩
  if record.text "delivery" = some "delivered" then some (receipt true)
  else if record.text "delivery" = some "unknown" then some (receipt false)
  else none

def parseCliError (record : Record) : Option String :=
  match record.fields with
  | [(key,.text code)] => if key = "code" ∧ code ≠ "" then some code else none
  | _ => none

def mapCliError (code : String) : String :=
  if code ∈ ["working_session","dead_session","child_session","remote_session","invalid_session","target_not_found",
      "unsupported_agent"] then code
  else if code = "session_busy" then "working_session"
  else if code = "session_unavailable" then "target_not_found"
  else if code = "session_changed" then "target_changed"
  else if code ∈ ["ambiguous_session","invalid_session_id","invalid_project","invalid_plan","request_conflict"] then "invalid_session"
  else if code ∈ ["unsupported_cursor_ide","unsupported_copilot","unsupported_kimi","unsupported_dsh"] then "unsupported_agent"
  else if code ∈ ["invalid_message_type","invalid_message_utf8","blank_message","message_nul","message_too_large"] then
    "invalid_message"
  else "executor_error"

def mapReceiptError (code : String) : String := if code = "timeout" then code else mapCliError code

inductive ChildEvent where
  | stdout (chunk : List UInt8)
  | stderr (chunk : List UInt8)
  | exited (code : Option Int)
  | failed (error : String)
  | expired

inductive Settled where
  | exit (code : Option Int)
  | spawnError (error : String)
  | timeout

-- The process: what spawning it throws, whether its output can be listened to, and what comes of
-- it, the executor's own timer among it. What writing to its stdin throws is swallowed.
structure Child where
  spawnError : Option String
  listens : Bool
  events : List ChildEvent

-- The race takes the first event that settles it, with what has been collected by then.
def race : List UInt8 → List UInt8 → List ChildEvent → Option (List UInt8 × List UInt8 × Settled)
  | _,_,[] => none
  | stdout,stderr,.stdout chunk :: rest => race (collect maxStdoutBytes stdout chunk) stderr rest
  | stdout,stderr,.stderr chunk :: rest => race stdout (collect stderrDetailBytes stderr chunk) rest
  | stdout,stderr,.exited code :: _ => some (stdout,stderr,.exit code)
  | stdout,stderr,.failed error :: _ => some (stdout,stderr,.spawnError error)
  | stdout,stderr,.expired :: _ => some (stdout,stderr,.timeout)

section Execute
variable (rt : Runtime) (o : Options) (req : Request)

def parsedJson (stdout : List UInt8) : Option Record := rt.parse (rt.utf8 stdout)

def withStderr (detail stderr : String) : Option String := some (if stderr = "" then detail else detail ++ "; stderr: " ++ stderr)

def bound (receipt : ParsedReceipt) : Bool :=
  receipt.agent = some req.target.agent && receipt.sessionId = some req.target.sessionId && receipt.requestId = some req.requestId

def exited (stdout : List UInt8) (stderr : String) (code : Option Int) : InjectResult :=
  match (parsedJson rt stdout).bind parseReceipt with
  | some receipt =>
    if !bound req receipt then
      {outcome := .unknown,errorCode := some "executor_error",detail := withStderr "send CLI receipt identity mismatch" stderr}
    else {
      outcome := if receipt.delivered then .delivered else .unknown
      errorCode := receipt.errorCode.map mapReceiptError
      replayed := if receipt.replayed then some true else none
      detail := nonempty (some stderr)}
  | none => match (parsedJson rt stdout).bind parseCliError with
    | some cliError =>
      if code ≠ some 0 then {outcome := .failed,errorCode := some (mapCliError cliError),detail := nonempty (some stderr)}
      else {outcome := .unknown,errorCode := some "executor_error",detail := withStderr "no valid bound send receipt or error" stderr}
    | none =>
      {outcome := .unknown,errorCode := some (if code = some 130 then "interrupted" else "executor_error")
       detail := withStderr "no valid bound send receipt or error" stderr}

-- None while nothing has settled the race. The submission has started before the first write,
-- so the startup failure of a process that could be spawned is never a definite one.
def execute (child : Child) : Option InjectResult :=
  match child.spawnError with
  | some error => some {outcome := .failed,errorCode := some "cli_not_found",detail := some error}
  | none =>
    if !child.listens then some {outcome := .failed,errorCode := some "executor_error"}
    else match race [] [] child.events with
      | none => none
      | some (_,stderr,.timeout) => some {
          outcome := .unknown,errorCode := some "timeout"
          detail := withStderr ("no exit within " ++ toString o.hardTimeoutMs ++ "ms; killed") (rt.utf8 stderr)}
      | some (_,_,.spawnError _) => some {
          outcome := .unknown,errorCode := some "executor_error"
          detail := some "process startup failed after stdin submission began"}
      | some (stdout,stderr,.exit code) => some (exited rt req stdout (rt.utf8 stderr) code)

end Execute

-- Some of the message may have reached the process's stdin.
def Handed (child : Child) : Prop := child.spawnError = none ∧ child.listens = true

-- The message was submitted: the process had it, and its send got past the point.
def Submitted (child : Child) (send : Send.Run Send.SendResult) : Prop := Handed child ∧ ∃ e ∈ send.trace, Send.Submits e

def printed (events : List ChildEvent) : List UInt8 :=
  events.flatMap fun event => match event with | .stdout chunk => chunk | _ => []

-- The process prints a lone code, however much of its output is seen, and exits with anything
-- but zero only where its send raises a SendError.
def Reports (rt : Runtime) (child : Child) (send : Send.Run Send.SendResult) : Prop :=
  ∀ seen exit code, seen <+: printed child.events → .exited exit ∈ child.events → exit ≠ some 0 →
    (parsedJson rt seen).bind parseCliError = some code → ∃ code detail, send.outcome = .error (.send code detail)

variable {rt : Runtime} {o : Options} {req : Request} {child : Child} {send : Send.Run Send.SendResult} {result : InjectResult}

theorem collect_twice (limit : Nat) (held chunk later : List UInt8) :
    collect limit (collect limit held chunk) later = collect limit held (chunk ++ later) := by
  simp only [collect,List.length_append,List.length_take,List.append_assoc,List.take_append]
  congr 3
  omega

theorem collect_nothing (limit : Nat) (held : List UInt8) : collect limit held [] = held := by simp [collect]

theorem race_collected {events : List ChildEvent} {stdout stderr stdout' stderr' : List UInt8} {settled : Settled}
    (raced : race stdout stderr events = some (stdout',stderr',settled)) :
    (∃ seen, seen <+: printed events ∧ stdout' = collect maxStdoutBytes stdout seen) ∧
      ∀ code, settled = .exit code → .exited code ∈ events := by
  induction events generalizing stdout stderr with
  | nil => cases raced
  | cons event rest ih =>
    cases event with
    | stdout chunk =>
      obtain ⟨⟨seen,first,same⟩,exits⟩ := ih raced
      refine ⟨⟨chunk ++ seen,?_,same.trans (collect_twice _ _ _ _)⟩,fun code ended => List.mem_cons_of_mem _ (exits code ended)⟩
      exact (List.prefix_append_right_inj chunk).mpr first
    | stderr chunk =>
      obtain ⟨collected,exits⟩ := ih raced
      exact ⟨collected,fun code ended => List.mem_cons_of_mem _ (exits code ended)⟩
    | exited code =>
      cases raced
      refine ⟨⟨[],List.nil_prefix,(collect_nothing _ _).symm⟩,fun code' ended => ?_⟩
      cases ended
      exact List.mem_cons_self
    | failed error =>
      cases raced
      exact ⟨⟨[],List.nil_prefix,(collect_nothing _ _).symm⟩,fun _ => nofun⟩
    | expired =>
      cases raced
      exact ⟨⟨[],List.nil_prefix,(collect_nothing _ _).symm⟩,fun _ => nofun⟩

theorem race_prefixed {events : List ChildEvent} {stdout stderr : List UInt8} {settled : Settled}
    (raced : race [] [] events = some (stdout,stderr,settled)) : stdout <+: printed events := by
  obtain ⟨⟨seen,first,same⟩,_⟩ := race_collected raced
  rw [same,collect,List.nil_append]
  exact (List.take_prefix _ _).trans first

theorem failed_cases (answered : execute rt o req child = some result) (failed : result.outcome = .failed) :
    ¬ Handed child ∨ ∃ seen exit code, seen <+: printed child.events ∧ .exited exit ∈ child.events ∧ exit ≠ some 0 ∧
      (parsedJson rt seen).bind parseCliError = some code := by
  unfold execute at answered
  split at answered
  · rename_i error spawned
    exact .inl fun handed => by rw [handed.1] at spawned; cases spawned
  split at answered
  · rename_i deaf
    exact .inl fun handed => by rw [handed.2] at deaf; cases deaf
  split at answered
  · cases answered
  · cases answered
    cases failed
  · cases answered
    cases failed
  · rename_i stdout stderr code raced
    cases answered
    refine .inr ?_
    unfold exited at failed
    split at failed
    · split at failed
      · cases failed
      · simp only at failed
        split at failed <;> cases failed
    · split at failed
      · rename_i cliError read
        split at failed
        · rename_i nonzero
          exact ⟨stdout,code,cliError,race_prefixed raced,(race_collected raced).2 code rfl,nonzero,read⟩
        · cases failed
      · cases failed

-- A receipt in what was seen of the process, of this agent, session and request.
def Receipt (rt : Runtime) (req : Request) (child : Child) : Prop :=
  ∃ seen record, seen <+: printed child.events ∧ parsedJson rt seen = some record ∧ record.text "delivery" = some "delivered" ∧
    record.text "agent" = some req.target.agent ∧ record.text "session_id" = some req.target.sessionId ∧
    record.text "request_id" = some req.requestId

theorem parseReceipt_delivered {record : Record} {receipt : ParsedReceipt} (parsed : parseReceipt record = some receipt)
    (delivered : receipt.delivered = true) : record.text "delivery" = some "delivered" ∧
      receipt.agent = record.text "agent" ∧ receipt.sessionId = record.text "session_id" ∧ receipt.requestId = record.text "request_id" := by
  unfold parseReceipt at parsed
  simp only at parsed
  split at parsed
  · rename_i told
    cases parsed
    exact ⟨told,rfl,rfl,rfl⟩
  · split at parsed <;> cases parsed
    cases delivered

theorem delivered_receipt (answered : execute rt o req child = some result) (delivered : result.outcome = .delivered) :
    Receipt rt req child := by
  unfold execute at answered
  split at answered
  · cases answered
    cases delivered
  split at answered
  · cases answered
    cases delivered
  split at answered
  · cases answered
  · cases answered
    cases delivered
  · cases answered
    cases delivered
  · rename_i stdout stderr code raced
    cases answered
    unfold exited at delivered
    split at delivered
    · rename_i receipt read
      obtain ⟨record,parsed,taken⟩ := Option.bind_eq_some_iff.mp read
      split at delivered
      · cases delivered
      · rename_i matches'
        simp only [Bool.not_eq_true',Bool.not_eq_false] at matches'
        simp only at delivered
        split at delivered
        · rename_i yes
          obtain ⟨told,agent,session,request⟩ := parseReceipt_delivered taken yes
          simp only [bound,Bool.and_eq_true,decide_eq_true_eq] at matches'
          obtain ⟨⟨agent',session'⟩,request'⟩ := matches'
          exact ⟨stdout,record,race_prefixed raced,parsed,told,agent.symm.trans agent',session.symm.trans session',
            request.symm.trans request'⟩
        · cases delivered
    · split at delivered
      · split at delivered <;> cases delivered
      · cases delivered

-- What execute_send and the executor over it report. The runner's gate is closed and the prompt's
-- frame unwritten when a SendError is raised, so a run past either ends otherwise.
structure FailureProves (w : Send.World) (planned : Send.SendPlan) (allowWrite : Bool) : Prop where
  raised : ∀ code detail, (Send.executeSend w planned allowWrite).outcome = .error (.send code detail) →
    .released ∉ (Send.executeSend w planned allowWrite).trace ∧
      ∀ bytes, .prompt bytes ∉ (Send.executeSend w planned allowWrite).trace
  past : ∀ event ∈ (Send.executeSend w planned allowWrite).trace, Send.Submits event →
    (∃ result, (Send.executeSend w planned allowWrite).outcome = .ok result) ∨
      ∃ e, (Send.executeSend w planned allowWrite).outcome = .error e ∧ ∀ code detail, e ≠ .send code detail
  failed : ∀ rt o req child result, Reports rt child (Send.executeSend w planned allowWrite) →
    execute rt o req child = some result → result.outcome = .failed → ¬ Submitted child (Send.executeSend w planned allowWrite)
  delivered : ∀ rt o req child result, execute rt o req child = some result → result.outcome = .delivered → Receipt rt req child

theorem failure_proves_unsent (w : Send.World) (planned : Send.SendPlan) (allowWrite : Bool) : FailureProves w planned allowWrite := by
  have quiet : ∀ code detail, (Send.executeSend w planned allowWrite).outcome = .error (.send code detail) →
      (Send.executeSend w planned allowWrite).Quiet Send.Submits :=
    fun code detail raised => Send.executeSend_honest planned allowWrite _ raised trivial
  refine ⟨fun code detail raised => ?_,fun event inside submits => ?_,
    fun rt o req child result reports answered failed submitted => ?_,fun rt o req child result => delivered_receipt⟩
  · exact ⟨fun inside => quiet code detail raised _ inside trivial,fun bytes inside => quiet code detail raised _ inside trivial⟩
  · cases ended : (Send.executeSend w planned allowWrite).outcome with
    | ok result => exact .inl ⟨result,rfl⟩
    | error e =>
      refine .inr ⟨e,rfl,fun code detail same => ?_⟩
      rw [same] at ended
      exact quiet code detail ended event inside submits
  · obtain ⟨handed,event,inside,submits⟩ := submitted
    rcases failed_cases answered failed with nothing | ⟨seen,exit,code,first,exits,nonzero,read⟩
    · exact nothing handed
    · obtain ⟨code',detail,raised⟩ := reports seen exit code first exits nonzero read
      exact quiet code' detail raised event inside submits

end AgentSideCar.SendCli
