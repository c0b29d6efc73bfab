import AgentSideCar.Library.Dumps
import AgentSideCar.Library.Program
import AgentSideCar.Send.AcpChecks

namespace AgentSideCar.Acp
open Loads (Value Text str)
open Wrapper (get)
open Dumps (Object)
open Send (Snag Foreign AcpPhase PromptWriteBoundary)

def lineBytes : Nat := 256 * 1024
def assistantBytes : Nat := 4 * 1024 * 1024
def jsonItems : Nat := 8192
def jsonLimits : Wrapper.JSONLimits := ⟨32,16384,lineBytes,256⟩

mutual
def items : Value → Nat
  | .list values => values.length + itemsOf values
  | .dict fields => fields.length + itemsIn fields
  | _ => 0

def itemsOf : List Value → Nat
  | [] => 0
  | value :: values => items value + itemsOf values

def itemsIn : List (Text × Value) → Nat
  | [] => 0
  | (_,value) :: fields => items value + itemsIn fields
end

-- parse_json under the limits of a line; `depth` is where the interpreter stops.
def parseJson (depth : Nat) (line : List UInt8) : Option Value :=
  if line = [] ∨ lineBytes < line.length then none
  else match Wrapper.parseJson depth jsonLimits line with
    | .ok value => if items value ≤ jsonItems then some value else none
    | .error _ => none

structure Request where
  cwd : Text
  sessionId : Text
  requestId : Text
  message : Text

-- What is written to the child: one of the five calls, the answer to a request of its own, or that
-- the prompt is given up.
inductive Frame where
  | call (id : Nat)
  | cancelled (id : RpcId)
  | notFound (id : RpcId)
  | sessionCancel
  deriving DecidableEq

-- What write_line answers: a boundary, one of its own errors, or any other.
inductive Write where
  | boundary (boundary : PromptWriteBoundary)
  | runtimeError
  | raised (snag : Snag)
  deriving DecidableEq

inductive Read where
  | line (bytes : List UInt8)
  | eof
  | raised (snag : Snag)

-- What was written and how far it got, and the envelopes that were read.
inductive Event where
  | sent (frame : Frame) (answer : Write)
  | heard (envelope : Fields)

-- How the child, the validator and the interpreter behave along one exchange.
structure Dialogue where
  request : Request
  version : Text
  depth : Nat
  validateSessionCwd : Text → Except Foreign Bool
  spawned : Option Snag
  reads : List Read
  writes : List Write
  unwritten : Option Snag
  polls : List Send.Poll
  waitClean : Except Snag Send.DuplexProcessResult
  cleanup : Option Foreign
  observed : Option Send.DuplexProcessResult

def textField (key : String) (t : Text) : Text × Object Unit := (str key,.text t)

def RpcId.object : RpcId → Object Unit
  | .int n => .int n
  | .text t => .text t

section Frames
variable (d : Dialogue)

def method : Nat → String
  | 1 => "initialize"
  | 2 => "session/list"
  | 3 => "session/resume"
  | 4 => "session/set_mode"
  | _ => "session/prompt"

def params : Nat → List (Text × Object Unit)
  | 1 => [(str "protocolVersion",.int 1),(str "clientCapabilities",.dict []),
      (str "clientInfo",.dict [textField "name" (str "agent-sidecar"),textField "version" d.version])]
  | 2 => [textField "cwd" d.request.cwd]
  | 3 => [textField "sessionId" d.request.sessionId,textField "cwd" d.request.cwd,(str "mcpServers",.list [])]
  | 4 => [textField "sessionId" d.request.sessionId,textField "modeId" (str "default")]
  | _ => [textField "sessionId" d.request.sessionId,textField "messageId" d.request.requestId,
      (str "prompt",.list [.dict [textField "type" (str "text"),textField "text" d.request.message]])]

def frameFields : Frame → List (Text × Object Unit)
  | .call id => [textField "jsonrpc" (str "2.0"),(str "id",.int id),textField "method" (str (method id)),(str "params",.dict (params d id))]
  | .cancelled id => [textField "jsonrpc" (str "2.0"),(str "id",id.object),
      (str "result",.dict [(str "outcome",.dict [textField "outcome" (str "cancelled")])])]
  | .notFound id => [textField "jsonrpc" (str "2.0"),(str "id",id.object),
      (str "error",.dict [(str "code",.int (-32601)),textField "message" (str "Method not found")])]
  | .sessionCancel => [textField "jsonrpc" (str "2.0"),textField "method" (str "session/cancel"),
      (str "params",.dict [textField "sessionId" d.request.sessionId])]

def writer : Dumps.Writer Unit := ⟨d.depth,fun n => some (Dumps.decimal n),fun _ => none⟩

def encodeFrame (frame : Frame) : Except Snag (List UInt8) :=
  match (Dumps.dumps (writer d) 0 (.dict (frameFields d frame))).bind Utf8.encode with
  | none => refuse
  | some payload => if payload = [] ∨ lineBytes < payload.length ∨ Send.newline ∈ payload then refuse else .ok payload

def isMapping : Value → Bool
  | .dict _ => true
  | _ => false

-- None is the ValueError before anything is done.
def preparePromptFrame : Option (List UInt8) :=
  match encodeFrame d (.call 5) with
  | .ok frame => if (parseJson d.depth frame).any isMapping then some frame else none
  | .error _ => none

end Frames

-- The fields of _Protocol, the phase of the driver, and the script and record of the exchange.
structure Link where
  writes : List Write
  pending : List RpcId := []
  completed : List RpcId := []
  reverseIds : List RpcId := []
  responseParts : List Text := []
  responseBytes : Nat := 0
  stopReason : Option Value := none
  ownTurnStarted : Bool := false
  phase : AcpPhase := .new
  transcript : List Event := []

def Link.record (event : Event) (s : Link) : Link := {s with transcript := s.transcript ++ [event]}
def Link.sent (frame : Frame) (answer : Write) (s : Link) : Link := {s.record (.sent frame answer) with writes := s.writes.tail}
def Link.expect (id : RpcId) (s : Link) : Link := {s with pending := id :: s.pending}
def Link.discard (id : RpcId) (s : Link) : Link := {s with pending := s.pending.filter (· ≠ id)}
def Link.complete (id : RpcId) (s : Link) : Link := {s.discard id with completed := id :: s.completed}
def Link.reverse (id : RpcId) (s : Link) : Link := {s with reverseIds := id :: s.reverseIds}
def Link.accept (part : Text) (bytes : Nat) (s : Link) : Link :=
  {s with responseParts := s.responseParts ++ [part],responseBytes := s.responseBytes + bytes,ownTurnStarted := true}
def Link.enter (phase : AcpPhase) (s : Link) : Link := {s with phase := phase}
def Link.settle (stopReason : Value) (s : Link) : Link := {s with stopReason := some stopReason,ownTurnStarted := true}

abbrev Driver (α : Type) := Program Link Snag α

def check (outcome : Check) : Driver Unit := .settle outcome

section Protocol
variable (d : Dialogue)

-- When the script ends, so has the deadline.
def writeLine (frame : Frame) : Driver Write := fun s =>
  let answer := s.writes.headD (.boundary .none)
  (.ok answer,s.sent frame answer)

def boundaryOf : Write → Except Snag PromptWriteBoundary
  | .boundary boundary => .ok boundary
  | .runtimeError => refuse
  | .raised snag => .error snag

def write (frame : Frame) : Driver PromptWriteBoundary := do
  let _ ← Program.settle (encodeFrame d frame)
  let answer ← writeLine frame
  Program.settle (boundaryOf answer)

def envelopeOf : Read → Except Snag Fields
  | .line bytes => match parseJson d.depth bytes with
    | some value => mapping value
    | none => refuse
  | .eof => refuse
  | .raised snag => .error snag

def readEnvelope (line : Read) : Driver Fields := do
  let envelope ← Program.settle (envelopeOf d line)
  Program.change (Link.record (.heard envelope))
  return envelope

-- The text of a chunk of the agent's message.
def chunkText (update : Fields) : Except Snag (Option Text) :=
  if oneOf ["agent_message_chunk"] (read update "sessionUpdate") then do
    let content ← mapping (read update "content")
    if oneOf ["text"] (read content "type") then
      match read content "text" with
      | .text t => return some t
      | _ => .error (.escape .other)
    else return none
  else return none

def updateOf (envelope : Fields) : Except Snag Fields := do
  demand (isText (str "session/update") (read envelope "method"))
  let params ← object (read envelope "params") ["sessionId","update"] ["_meta"]
  demand (isText d.request.sessionId (read params "sessionId"))
  let update ← mapping (read params "update")
  validateUpdate (.dict update)
  return update

def acceptPart (part : Text) : Driver Unit := do
  match Utf8.encode part with
  | none => Program.raise protocolError
  | some encoded =>
    let s ← Program.read
    if assistantBytes < s.responseBytes + encoded.length then Program.raise (.driver "output_overflow")
    else Program.change (Link.accept part encoded.length)

def notification (envelope : Fields) : Driver Unit := do
  let update ← Program.settle (updateOf d envelope)
  match ← Program.settle (chunkText update) with
  | none => return ()
  | some part => acceptPart part

def reverseRequest (envelope : Fields) : Driver Unit := do
  let id ← Program.settle (rpcId (read envelope "id"))
  let s ← Program.read
  check (demand (id ∉ s.reverseIds))
  Program.change (Link.reverse id)
  if isText (str "session/request_permission") (read envelope "method") then
    check (validatePermissionParams d.request.sessionId (read envelope "params"))
    let boundary ← write d (.cancelled id)
    check (demand (boundary = .complete))
  else
    let _ ← write d (.notFound id)
    Program.raise protocolError

def isMethod : Value → Bool
  | .text t => !t.isEmpty
  | _ => false

def callFine (envelope : Fields) : Check := do
  demand (keysAmong envelope ["jsonrpc","id","method","params"])
  demand (get envelope "params").isSome
  demand (isMethod (read envelope "method"))

def responseId (envelope : Fields) : Except Snag RpcId := do
  demand ((get envelope "id").isSome && (get envelope "params").isNone && keysAmong envelope ["jsonrpc","id","result","error"])
  rpcId (read envelope "id")

def isExpected (id : RpcId) (expectedId : Option Nat) : Bool := expectedId.any fun n => id = .int n

-- The one who answers an error has answered; the code that asked fails.
def responseError (id : RpcId) (envelope : Fields) : Check :=
  if (get envelope "error").isSome then do
    validateError (read envelope "error")
    if id = .int 5 ∧ errorIsBusy (read envelope "error") then .error (.driver "session_busy") else refuse
  else .ok ()

def respond (envelope : Fields) (expectedId : Option Nat) : Driver Fields := do
  let id ← Program.settle (responseId envelope)
  let s ← Program.read
  check (demand (id ∉ s.completed ∧ id ∈ s.pending))
  check (demand (isExpected id expectedId))
  check (demand ((get envelope "result").isSome != (get envelope "error").isSome))
  Program.change (Link.complete id)
  check (responseError id envelope)
  return envelope

def consume (envelope : Fields) (expectedId : Option Nat) : Driver (Option Fields) := do
  check (demand (isText (str "2.0") (read envelope "jsonrpc")))
  if (get envelope "method").isSome then
    check (callFine envelope)
    if (get envelope "id").isSome then reverseRequest d envelope else notification d envelope
    return none
  else
    let response ← respond envelope expectedId
    return some response

-- The envelopes up to the response; what is left of the script comes with it.
def awaitResponse (expectedId : Nat) : List Read → Driver (Fields × List Read)
  | [] => Program.raise .timeout
  | line :: rest => do
    let envelope ← readEnvelope d line
    match ← consume d envelope (some expectedId) with
    | some response => return (response,rest)
    | none => awaitResponse expectedId rest

def requestRpc (id : Nat) (reads : List Read) : Driver (Fields × List Read) := do
  let s ← Program.read
  check (demand (.int id ∉ s.pending ∧ .int id ∉ s.completed))
  Program.change (Link.expect (.int id))
  match ← write d (.call id) with
  | .complete => awaitResponse d id reads
  | .none => do
    Program.change (Link.discard (.int id))
    Program.raise (.driver "timeout")
  | .partially => do
    Program.change (Link.discard (.int id))
    Program.raise protocolError

end Protocol

section Driver
variable (d : Dialogue)

-- What the driver makes of the result of each call.
def accepts (n : Nat) (envelope : Fields) : Check :=
  match n with
  | 1 => initializeResult envelope
  | 2 => listResult d.request.sessionId d.validateSessionCwd envelope
  | 3 => resumeResult envelope
  | 4 => modeResult envelope
  | _ => (promptResult envelope).map fun _ => ()

def phaseAt : Nat → AcpPhase
  | 0 => .new
  | 1 => .initialized
  | 2 => .listed
  | 3 => .resumed
  | 4 => .modeSet
  | _ => .promptSettled

def rpcStep (n : Nat) (reads : List Read) : Driver (List Read) := do
  let (response,reads) ← requestRpc d n reads
  check (accepts d n response)
  Program.change (Link.enter (phaseAt n))
  return reads

def setup : Driver (List Read) := do
  check (match d.spawned with
    | none => .ok ()
    | some snag => .error snag)
  let reads ← rpcStep d 1 d.reads
  let reads ← rpcStep d 2 reads
  let reads ← rpcStep d 3 reads
  rpcStep d 4 reads

-- The prompt has crossed.
def settlePrompt (reads : List Read) : Driver (List Read) := do
  Program.change (Link.expect (.int 5))
  Program.change (Link.record (.sent (.call 5) (.boundary .complete)))
  let (response,reads) ← awaitResponse d 5 reads
  let stopReason ← Program.settle (promptResult response)
  Program.change (Link.settle stopReason)
  Program.change (Link.enter .promptSettled)
  return reads

def drainTrailing : List Read → Driver Unit
  | [] => Program.raise .timeout
  | .eof :: _ => return ()
  | line :: rest => do
    let trailing ← readEnvelope d line
    let _ ← consume d trailing none
    drainTrailing rest

def begin : Link := {writes := d.writes}

end Driver
end AgentSideCar.Acp
