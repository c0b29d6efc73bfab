import AgentSideCar.Library.Dict
import AgentSideCar.Library.Runs

namespace AgentSideCar.InjectGateway
open Runs

structure InjectTarget where
  agent : String
  sessionId : String
  deriving DecidableEq

inductive InjectMode where | queue | steer
  deriving DecidableEq
inductive InjectOutcome where | delivered | failed | unknown
  deriving DecidableEq

structure InjectResult where
  outcome : InjectOutcome
  errorCode : Option String := none
  detail : Option String := none
  replayed : Option Bool := none
  deriving DecidableEq

structure InjectEligibility where
  allowed : Bool
  reason : String
  deriving DecidableEq

structure TargetStatus where
  agent : String
  sessionId : String
  status : String
  title : Option String := none
  project : Option String := none
  injectEligibility : Option InjectEligibility := none
  deriving DecidableEq

structure PrepareRequest where
  target : InjectTarget
  mode : InjectMode
  message : String
  deriving DecidableEq

structure ExecuteRequest where
  requestId : String
  confirmToken : String
  message : String
  deriving DecidableEq

-- The head is kept as UTF-16 code units, which is what slice counts.
structure MessagePreview where
  bytes : Nat
  head : List Nat

structure InjectPlan where
  target : InjectTarget
  mode : InjectMode
  targetStatus : TargetStatus
  messagePreview : MessagePreview

structure Confirmation where
  requestId : String
  confirmToken : String
  plan : InjectPlan
  expiresAt : Nat

inductive PreflightResult where
  | ok
  | refused (errorCode : String) (detail : Option String)

inductive Phase where | prepare | execute
structure InjectLogEntry where
  ts : Nat
  phase : Phase
  requestId : Option String
  target : Option InjectTarget
  mode : Option InjectMode
  ok : Bool
  outcome : Option InjectOutcome := none
  errorCode : Option String := none
  replayed : Option Bool := none
  messageBytes : Nat
  messageSha12 : String

def maxMessageBytes : Nat := 16 * 1024
def tokenTtlMs : Nat := 60000
def maxPendingTokens : Nat := 32
def resultCacheTtlMs : Nat := 5 * 60000
def headPreviewChars : Nat := 120
def logRingLimit : Nat := 256
def shaLogChars : Nat := 12
def sendCliAgents : List String := ["claude","codex","cursor-cli","kimi","copilot"]

structure PendingToken where
  token : String
  target : InjectTarget
  mode : InjectMode
  messageSha256 : String
  expiresAt : Nat
  consumed : Bool
  deriving DecidableEq

structure CachedResult where
  result : InjectResult
  expiresAt : Nat

inductive ExecutorKind where | dsh | sendCli
  deriving DecidableEq

-- The hash, and which of the two executors declares a preflight.
structure Deps where
  sha256 : String → String
  preflights : ExecutorKind → Bool

-- The calls that wait at an await, with what they still hold.
inductive Thread where
  | preparing (req : PrepareRequest)
  | preflighting (req : PrepareRequest) (status : TargetStatus)
  | confirming (req : ExecuteRequest) (record : PendingToken) (admittedAt : Nat)
  | dispatched (req : ExecuteRequest) (record : PendingToken)
  deriving DecidableEq

structure Fired where
  executor : ExecutorKind
  target : InjectTarget
  mode : InjectMode
  message : String
  requestId : String
  presented : String
  admittedAt : Nat
  firedAt : Nat

structure Answer where
  request : ExecuteRequest
  result : InjectResult
  cached : Bool

-- The maps and the ring of the gateway, then what its callers, its executors and the log's sink saw.
structure State where
  pending : Dict String PendingToken := .empty
  results : Dict String CachedResult := .empty
  logRing : List InjectLogEntry := []
  threads : List Thread := []
  issued : List (PrepareRequest × Confirmation) := []
  refused : List (PrepareRequest × String × Option String) := []
  fired : List Fired := []
  completed : List (String × InjectResult) := []
  answers : List Answer := []
  logged : List InjectLogEntry := []

structure MessageDigest where
  bytes : Nat
  sha256 : String
  sha12 : String

def digestMessage (d : Deps) (message : String) : MessageDigest :=
  let sha256 := d.sha256 message
  ⟨message.utf8ByteSize,sha256,String.ofList (sha256.toList.take shaLogChars)⟩

def validateMessage (message : String) (bytes : Nat) : Option String :=
  if bytes = 0 then some "message is empty"
  else if message.toList.contains (Char.ofNat 0) then some "message contains a NUL byte"
  else if bytes > maxMessageBytes then some s!"message is {bytes} bytes; limit is {maxMessageBytes}"
  else none

def tokenEquals (expected provided : String) : Bool := decide (expected = provided)

def utf16Units (c : Char) : List Nat :=
  if c.toNat < 0x10000 then [c.toNat]
  else [0xD800 + (c.toNat - 0x10000) / 0x400,0xDC00 + (c.toNat - 0x10000) % 0x400]

-- The clock is read once for the decision and once more for the log entry.
structure Clock where
  now : Nat
  logged : Nat

structure Draw where
  requestId : String
  confirmToken : String

def prune (now : Nat) (s : State) : State :=
  {s with
    pending := s.pending.filter fun _ record => !decide (record.expiresAt + resultCacheTtlMs ≤ now)
    results := s.results.filter fun _ cached => !decide (cached.expiresAt ≤ now)}

def inFlightCount (now : Nat) (s : State) : Nat :=
  (s.pending.values.filter fun record => !record.consumed && decide (record.expiresAt > now)).length

def record (entry : InjectLogEntry) (s : State) : State :=
  let ring := s.logRing ++ [entry]
  {s with logRing := ring.drop (ring.length - logRingLimit),logged := s.logged ++ [entry]}

def executorFor (agent : String) : Option ExecutorKind :=
  if agent = "dsh" then some .dsh
  else if sendCliAgents.contains agent then some .sendCli
  else none

-- The verifier threw, knew no such target, or answered with a row.
inductive Verdict where
  | threw
  | missing
  | row (status : TargetStatus)

def revalidateTarget (target : InjectTarget) : Verdict → Except String TargetStatus
  | .threw => .error "invalid_session"
  | .missing => .error "target_not_found"
  | .row status =>
    if status.agent ≠ target.agent ∨ status.sessionId ≠ target.sessionId then .error "invalid_session"
    else match status.injectEligibility with
      | none => .error "invalid_session"
      | some eligibility =>
        if !eligibility.allowed then .error eligibility.reason
        else if eligibility.reason ≠ "eligible" then .error "invalid_session"
        else .ok status

def rejectPrepare (d : Deps) (req : PrepareRequest) (errorCode : String) (detail : Option String)
    (redactIdentity : Bool) (clock : Clock) (s : State) : State :=
  let digest := digestMessage d req.message
  let logged := record {
    ts := clock.logged,phase := .prepare,requestId := none
    target := if redactIdentity then none else some req.target
    mode := if redactIdentity then none else some req.mode
    ok := false,errorCode := some errorCode
    messageBytes := digest.bytes,messageSha12 := digest.sha12} s
  {logged with refused := logged.refused ++ [(req,errorCode,detail)]}

def redacted (record : Option PendingToken) : Bool :=
  match record with
  | some r => r.target.agent = "dsh"
  | none => false

def answer (req : ExecuteRequest) (result : InjectResult) (cached : Bool) (s : State) : State :=
  {s with answers := s.answers ++ [⟨req,result,cached⟩]}

def rejectExecute (d : Deps) (req : ExecuteRequest) (held : Option PendingToken) (errorCode : String)
    (clock : Clock) (s : State) : State :=
  let digest := digestMessage d req.message
  answer req {outcome := .failed,errorCode := some errorCode} false (record {
    ts := clock.logged,phase := .execute
    requestId := if redacted held then none else some req.requestId
    target := if redacted held then none else held.map (·.target)
    mode := if redacted held then none else held.map (·.mode)
    ok := false,outcome := some .failed,errorCode := some errorCode
    messageBytes := digest.bytes,messageSha12 := digest.sha12} s)

def logExecuteResult (d : Deps) (req : ExecuteRequest) (held : PendingToken) (result : InjectResult)
    (clock : Clock) (s : State) : State :=
  let digest := digestMessage d req.message
  let hidden := redacted (some held) && decide (result.outcome = .failed)
  record {
    ts := clock.logged,phase := .execute
    requestId := if hidden then none else some req.requestId
    target := if hidden then none else some held.target
    mode := if hidden then none else some held.mode
    ok := decide (result.outcome = .delivered),outcome := some result.outcome
    errorCode := result.errorCode,replayed := result.replayed
    messageBytes := digest.bytes,messageSha12 := digest.sha12} s

def confirmation (req : PrepareRequest) (status : TargetStatus) (issuedAt : Nat) (draw : Draw) : Confirmation :=
  ⟨draw.requestId,draw.confirmToken,⟨req.target,req.mode,status,⟨req.message.utf8ByteSize,
    (req.message.toList.flatMap utf16Units).take headPreviewChars⟩⟩,issuedAt + tokenTtlMs⟩

def pendingToken (d : Deps) (req : PrepareRequest) (c : Confirmation) : PendingToken :=
  ⟨c.confirmToken,req.target,req.mode,(digestMessage d req.message).sha256,c.expiresAt,false⟩

def issue (d : Deps) (req : PrepareRequest) (status : TargetStatus) (clock : Clock) (draw : Draw)
    (s : State) : State :=
  if inFlightCount clock.now s ≥ maxPendingTokens then
    rejectPrepare d req "too_many_pending" none false clock s
  else
    let digest := digestMessage d req.message
    let c := confirmation req status clock.now draw
    record {
      ts := clock.now,phase := .prepare,requestId := some c.requestId
      target := some req.target,mode := some req.mode,ok := true
      messageBytes := digest.bytes,messageSha12 := digest.sha12}
      {s with
        pending := s.pending.set c.requestId (pendingToken d req c)
        issued := s.issued ++ [(req,c)]}

def wait (t : Thread) (s : State) : State := {s with threads := s.threads ++ [t]}
def resume (t : Thread) (s : State) : State := {s with threads := s.threads.erase t}

-- prepare, up to its first await and from each await on.
def prepare (d : Deps) (req : PrepareRequest) (allowWrite : Bool) (clock : Clock) (s : State) : State :=
  let pruned := prune clock.now s
  if !allowWrite then rejectPrepare d req "inject_disabled" none false clock pruned
  else match validateMessage req.message (digestMessage d req.message).bytes with
    | some invalid => rejectPrepare d req "invalid_message" (some invalid) false clock pruned
    | none => wait (.preparing req) pruned

def prepareVerified (d : Deps) (req : PrepareRequest) (verdict : Verdict) (clock : Clock) (draw : Draw)
    (s : State) : State :=
  match revalidateTarget req.target verdict with
  | .error errorCode => rejectPrepare d req errorCode none false clock s
  | .ok status =>
    match executorFor req.target.agent with
    | none => rejectPrepare d req "unsupported_agent" none false clock s
    | some kind =>
      if d.preflights kind then wait (.preflighting req status) s else issue d req status clock draw s

def preparePreflighted (d : Deps) (req : PrepareRequest) (status : TargetStatus)
    (preflight : Option PreflightResult) (clock : Clock) (draw : Draw) (s : State) : State :=
  match preflight with
  | none => rejectPrepare d req "executor_error" none false clock s
  | some (.refused errorCode detail) => rejectPrepare d req errorCode detail true clock s
  | some .ok => issue d req status clock draw s

def bound (d : Deps) (held : PendingToken) (req : ExecuteRequest) : Bool :=
  tokenEquals held.token req.confirmToken && decide (held.messageSha256 = d.sha256 req.message)

def replay (d : Deps) (req : ExecuteRequest) (held : PendingToken) (cached : CachedResult) (clock : Clock)
    (s : State) : State :=
  let replayed := {cached.result with replayed := some true}
  answer req replayed true (logExecuteResult d req held replayed clock s)

def consume (requestId : String) (held : PendingToken) (s : State) : State :=
  {s with pending := s.pending.set requestId {held with consumed := true}}

-- What is left of execute's first segment once a live record was found.
def attempt (d : Deps) (req : ExecuteRequest) (held : PendingToken) (allowWrite : Bool) (clock : Clock)
    (s : State) : State :=
  let spent := consume req.requestId held s
  if !tokenEquals held.token req.confirmToken then rejectExecute d req (some held) "token_mismatch" clock spent
  else if held.messageSha256 ≠ (digestMessage d req.message).sha256 then
    rejectExecute d req (some held) "token_mismatch" clock spent
  else if !allowWrite then rejectExecute d req (some held) "inject_disabled" clock spent
  else wait (.confirming req {held with consumed := true} clock.now) spent

def execute (d : Deps) (req : ExecuteRequest) (allowWrite : Bool) (clock : Clock) (s : State) : State :=
  let pruned := prune clock.now s
  match pruned.results.get req.requestId,pruned.pending.get req.requestId with
  | some _,none => rejectExecute d req none "token_missing" clock pruned
  | some cached,some held =>
    if !bound d held req then rejectExecute d req (some held) "token_mismatch" clock pruned
    else replay d req held cached clock pruned
  | none,held =>
    if req.confirmToken = "" then rejectExecute d req held "token_missing" clock pruned
    else match held with
      | none => rejectExecute d req none "token_missing" clock pruned
      | some held =>
        if held.consumed then rejectExecute d req (some held) "token_reused" clock pruned
        else if held.expiresAt ≤ clock.now then
          rejectExecute d req (some held) "token_expired" clock
            {pruned with pending := pruned.pending.erase req.requestId}
        else attempt d req held allowWrite clock pruned

def fire (kind : ExecutorKind) (req : ExecuteRequest) (held : PendingToken) (admittedAt now : Nat)
    (s : State) : State :=
  {s with fired := s.fired ++
    [⟨kind,held.target,held.mode,req.message,req.requestId,req.confirmToken,admittedAt,now⟩]}

def executeVerified (d : Deps) (req : ExecuteRequest) (held : PendingToken) (admittedAt : Nat)
    (verdict : Verdict) (clock : Clock) (s : State) : State :=
  match revalidateTarget held.target verdict with
  | .error errorCode => rejectExecute d req (some held) errorCode clock s
  | .ok _ =>
    match executorFor held.target.agent with
    | none => rejectExecute d req (some held) "unsupported_agent" clock s
    | some kind => wait (.dispatched req held) (fire kind req held admittedAt clock.now s)

-- `settled` is none where the executor threw.
def executeSettled (d : Deps) (req : ExecuteRequest) (held : PendingToken) (settled : Option InjectResult)
    (clock : Clock) (s : State) : State :=
  let result := settled.getD {outcome := .failed,errorCode := some "executor_error"}
  let cached := {s with
    results := s.results.set req.requestId ⟨result,clock.now + resultCacheTtlMs⟩
    completed := s.completed ++ [(req.requestId,result)]}
  answer req result false (logExecuteResult d req held result clock cached)

inductive Event where
  | prepare (req : PrepareRequest) (allowWrite : Bool) (clock : Clock)
  | execute (req : ExecuteRequest) (allowWrite : Bool) (clock : Clock)
  | verified (t : Thread) (verdict : Verdict) (clock : Clock) (draw : Draw)
  | preflighted (t : Thread) (preflight : Option PreflightResult) (clock : Clock) (draw : Draw)
  | settled (t : Thread) (result : Option InjectResult) (clock : Clock)

-- Any call may start and any waiting call may go on; the clock may read anything.
def advance (d : Deps) (s : State) : Event → Option State
  | .prepare req allowWrite clock => some (prepare d req allowWrite clock s)
  | .execute req allowWrite clock => some (execute d req allowWrite clock s)
  | .verified t verdict clock draw =>
    if t ∈ s.threads then
      match t with
      | .preparing req => some (prepareVerified d req verdict clock draw (resume t s))
      | .confirming req held admittedAt => some (executeVerified d req held admittedAt verdict clock (resume t s))
      | _ => none
    else none
  | .preflighted t preflight clock draw =>
    if t ∈ s.threads then
      match t with
      | .preflighting req status => some (preparePreflighted d req status preflight clock draw (resume t s))
      | _ => none
    else none
  | .settled t result clock =>
    if t ∈ s.threads then
      match t with
      | .dispatched req held => some (executeSettled d req held result clock (resume t s))
      | _ => none
    else none

-- The random request ids are unique.
def Fresh (s : State) : Event → Prop
  | .verified _ _ _ draw | .preflighted _ _ _ draw => draw.requestId ∉ s.issued.map (·.2.requestId)
  | _ => True

-- One confirmation presented in full: its id, its token and a message with its hash.
def Presents (d : Deps) (i : PrepareRequest × Confirmation) (req : ExecuteRequest) : Prop :=
  i.2.requestId = req.requestId ∧ i.2.confirmToken = req.confirmToken ∧
    d.sha256 i.1.message = d.sha256 req.message

def Confirmed (d : Deps) (s : State) (f : Fired) : Prop :=
  ∃ i ∈ s.issued, Presents d i ⟨f.requestId,f.presented,f.message⟩ ∧ f.target = i.1.target ∧
    f.mode = i.1.mode ∧ f.admittedAt < i.2.expiresAt

structure Sound (d : Deps) (s : State) : Prop where
  issuedOnce : (s.issued.map (·.2.requestId)).Nodup
  firedOnce : (s.fired.map (·.requestId)).Nodup
  confirmed : ∀ f ∈ s.fired, Confirmed d s f
  replayed : ∀ a ∈ s.answers, a.cached = true → (∃ i ∈ s.issued, Presents d i a.request) ∧
    ∃ first, (a.request.requestId,first) ∈ s.completed ∧ a.result = {first with replayed := some true}

-- A request is claimed once a call has consumed its token and goes on to fire.
def Thread.claim : Thread → Option String
  | .confirming req _ _ => some req.requestId
  | _ => none

def claims (s : State) : List String := s.fired.map (·.requestId) ++ s.threads.filterMap Thread.claim

def Backed (i : PrepareRequest × Confirmation) (d : Deps) (id : String) (r : PendingToken) : Prop :=
  i.2.requestId = id ∧ r.token = i.2.confirmToken ∧ r.target = i.1.target ∧ r.mode = i.1.mode ∧
    r.messageSha256 = d.sha256 i.1.message ∧ r.expiresAt = i.2.expiresAt

structure Kept (d : Deps) (s : State) : Prop where
  issuedOnce : (s.issued.map (·.2.requestId)).Nodup
  claimedOnce : (claims s).Nodup
  known : ∀ id ∈ claims s, id ∈ s.issued.map (·.2.requestId)
  backed : ∀ id r, s.pending.get id = some r → ∃ i ∈ s.issued, Backed i d id r
  spent : ∀ id r, s.pending.get id = some r → id ∈ claims s → r.consumed = true
  admitted : ∀ req r at', .confirming req r at' ∈ s.threads → ∃ i ∈ s.issued, Backed i d req.requestId r ∧
    Presents d i req ∧ at' < i.2.expiresAt
  confirmed : ∀ f ∈ s.fired, Confirmed d s f
  dispatched : ∀ req r, .dispatched req r ∈ s.threads → req.requestId ∈ s.fired.map (·.requestId)
  completed : ∀ c ∈ s.completed, c.1 ∈ s.fired.map (·.requestId)
  cached : ∀ id c, s.results.get id = some c → (id,c.result) ∈ s.completed
  replayed : ∀ a ∈ s.answers, a.cached = true → (∃ i ∈ s.issued, Presents d i a.request) ∧
    ∃ first, (a.request.requestId,first) ∈ s.completed ∧ a.result = {first with replayed := some true}

theorem kept_sound (kept : Kept d s) : Sound d s :=
  ⟨kept.issuedOnce,(List.nodup_append.mp kept.claimedOnce).1,kept.confirmed,kept.replayed⟩

theorem initial_kept (d : Deps) : Kept d {} := by
  constructor <;> simp [claims,Dict.get_empty]

theorem shrunk_kept (kept : Kept d s) (pending : ∀ id r, after.pending.get id = some r → s.pending.get id = some r)
    (results : ∀ id c, after.results.get id = some c → s.results.get id = some c)
    (same : after = {s with pending := after.pending,results := after.results}) : Kept d after := by
  rw [same]
  exact {
    issuedOnce := kept.issuedOnce
    claimedOnce := kept.claimedOnce
    known := kept.known
    backed := fun id r held => kept.backed id r (pending id r held)
    spent := fun id r held => kept.spent id r (pending id r held)
    admitted := kept.admitted
    confirmed := kept.confirmed
    dispatched := kept.dispatched
    completed := kept.completed
    cached := fun id c held => kept.cached id c (results id c held)
    replayed := kept.replayed}

theorem prune_kept (kept : Kept d s) (now : Nat) : Kept d (prune now s) := by
  refine shrunk_kept kept ?_ ?_ rfl
  · intro id r held
    simp only [prune,Dict.get_filter] at held
    exact (Option.filter_eq_some_iff.mp held).1
  · intro id c held
    simp only [prune,Dict.get_filter] at held
    exact (Option.filter_eq_some_iff.mp held).1

theorem logged_kept (kept : Kept d s) (ring logged : List InjectLogEntry)
    (refused : List (PrepareRequest × String × Option String)) :
    Kept d {s with logRing := ring,logged := logged,refused := refused} := {
  issuedOnce := kept.issuedOnce
  claimedOnce := kept.claimedOnce
  known := kept.known
  backed := kept.backed
  spent := kept.spent
  admitted := kept.admitted
  confirmed := kept.confirmed
  dispatched := kept.dispatched
  completed := kept.completed
  cached := kept.cached
  replayed := kept.replayed}

theorem record_kept (kept : Kept d s) (entry : InjectLogEntry) : Kept d (record entry s) := by
  unfold record
  exact logged_kept kept _ _ _

theorem rejectPrepare_kept (kept : Kept d s) : Kept d (rejectPrepare d req code detail redact clock s) := by
  unfold rejectPrepare
  exact logged_kept (record_kept kept _) _ _ _

theorem answer_kept (kept : Kept d s) (fits : cached = true → (∃ i ∈ s.issued, Presents d i req) ∧
    ∃ first, (req.requestId,first) ∈ s.completed ∧ result = {first with replayed := some true}) :
    Kept d (answer req result cached s) := by
  refine ⟨kept.issuedOnce,kept.claimedOnce,kept.known,kept.backed,kept.spent,kept.admitted,kept.confirmed,
    kept.dispatched,kept.completed,kept.cached,?_⟩
  intro a present from'
  rcases List.mem_append.mp present with old | new
  · exact kept.replayed a old from'
  · cases List.mem_singleton.mp new; exact fits from'

theorem rejectExecute_kept (kept : Kept d s) : Kept d (rejectExecute d req held code clock s) :=
  answer_kept (record_kept kept _) nofun

theorem resume_kept (kept : Kept d s) (t : Thread) : Kept d (resume t s) := by
  have fewer : (claims (resume t s)).Sublist (claims s) :=
    (List.Sublist.refl _).append ((List.erase_sublist).filterMap _)
  exact {
    issuedOnce := kept.issuedOnce
    claimedOnce := kept.claimedOnce.sublist fewer
    known := fun id inside => kept.known id (fewer.subset inside)
    backed := kept.backed
    spent := fun id r held inside => kept.spent id r held (fewer.subset inside)
    admitted := fun req r at' inside => kept.admitted req r at' (List.mem_of_mem_erase inside)
    confirmed := kept.confirmed
    dispatched := fun req r inside => kept.dispatched req r (List.mem_of_mem_erase inside)
    completed := kept.completed
    cached := kept.cached
    replayed := kept.replayed}

theorem wait_kept (kept : Kept d s) (unclaimed : t.claim = none)
    (fired : ∀ req r, t = .dispatched req r → req.requestId ∈ s.fired.map (·.requestId)) : Kept d (wait t s) := by
  have same : claims (wait t s) = claims s := by simp [claims,wait,unclaimed]
  exact {
    issuedOnce := kept.issuedOnce
    claimedOnce := same ▸ kept.claimedOnce
    known := same ▸ kept.known
    backed := kept.backed
    spent := same ▸ kept.spent
    admitted := by
      intro req r at' inside
      rcases List.mem_append.mp inside with old | new
      · exact kept.admitted req r at' old
      · cases List.mem_singleton.mp new; cases unclaimed
    confirmed := kept.confirmed
    dispatched := by
      intro req r inside
      rcases List.mem_append.mp inside with old | new
      · exact kept.dispatched req r old
      · exact fired req r (List.mem_singleton.mp new).symm
    completed := kept.completed
    cached := kept.cached
    replayed := kept.replayed}

theorem opened_kept (kept : Kept d s) (fresh : c.requestId ∉ s.issued.map (·.2.requestId))
    (backs : Backed (req,c) d c.requestId r) :
    Kept d {s with pending := s.pending.set c.requestId r,issued := s.issued ++ [(req,c)]} := {
  issuedOnce := by
    rw [List.map_append]
    refine List.nodup_append.mpr ⟨kept.issuedOnce,by simp,?_⟩
    rintro a old b new rfl
    cases List.mem_singleton.mp new
    exact fresh old
  claimedOnce := kept.claimedOnce
  known := fun id claimed => by rw [List.map_append]; exact List.mem_append_left _ (kept.known id claimed)
  backed := by
    intro id r' held
    rw [Dict.get_set] at held
    split at held
    · rename_i same
      cases held
      exact ⟨_,List.mem_append_right _ (List.mem_singleton_self _),same ▸ backs⟩
    · obtain ⟨i,present,fits⟩ := kept.backed id r' held
      exact ⟨i,List.mem_append_left _ present,fits⟩
  spent := by
    intro id r' held claimed
    rw [Dict.get_set] at held
    split at held
    · rename_i same
      exact absurd (same ▸ kept.known id claimed) fresh
    · exact kept.spent id r' held claimed
  admitted := by
    intro waiting r' at' inside
    obtain ⟨i,present,fits⟩ := kept.admitted waiting r' at' inside
    exact ⟨i,List.mem_append_left _ present,fits⟩
  confirmed := by
    intro f inside
    obtain ⟨i,present,fits⟩ := kept.confirmed f inside
    exact ⟨i,List.mem_append_left _ present,fits⟩
  dispatched := kept.dispatched
  completed := kept.completed
  cached := kept.cached
  replayed := by
    intro a inside from'
    obtain ⟨⟨i,present,fits⟩,first⟩ := kept.replayed a inside from'
    exact ⟨⟨i,List.mem_append_left _ present,fits⟩,first⟩}

theorem issue_kept (kept : Kept d s) (fresh : draw.requestId ∉ s.issued.map (·.2.requestId)) :
    Kept d (issue d req status clock draw s) := by
  unfold issue
  split
  · exact rejectPrepare_kept kept
  · exact record_kept (opened_kept kept fresh ⟨rfl,rfl,rfl,rfl,rfl,rfl⟩) _

theorem consume_kept {id : String} (kept : Kept d s) (held : s.pending.get id = some r) : Kept d (consume id r s) := {
  issuedOnce := kept.issuedOnce
  claimedOnce := kept.claimedOnce
  known := kept.known
  backed := by
    intro other r' found
    simp only [consume,Dict.get_set] at found
    split at found
    · rename_i same
      cases found
      exact same ▸ kept.backed id r held
    · exact kept.backed other r' found
  spent := by
    intro other r' found claimed
    simp only [consume,Dict.get_set] at found
    split at found
    · cases found; rfl
    · exact kept.spent other r' found claimed
  admitted := kept.admitted
  confirmed := kept.confirmed
  dispatched := kept.dispatched
  completed := kept.completed
  cached := kept.cached
  replayed := kept.replayed}

-- A call that consumed a token nobody had claimed is the one that may fire.
theorem admit_kept (kept : Kept d s) (held : s.pending.get req.requestId = some r) (spent : r.consumed = true)
    (free : req.requestId ∉ claims s) (present : i ∈ s.issued) (backs : Backed i d req.requestId r)
    (presents : Presents d i req) (live : at' < i.2.expiresAt) : Kept d (wait (.confirming req r at') s) := by
  have more : claims (wait (.confirming req r at') s) = claims s ++ [req.requestId] := by
    simp [claims,wait,Thread.claim]
  exact {
    issuedOnce := kept.issuedOnce
    claimedOnce := by
      rw [more]
      refine List.nodup_append.mpr ⟨kept.claimedOnce,by simp,?_⟩
      rintro a old b new rfl
      cases List.mem_singleton.mp new
      exact free old
    known := by
      intro id claimed
      rw [more] at claimed
      rcases List.mem_append.mp claimed with old | new
      · exact kept.known id old
      · cases List.mem_singleton.mp new
        exact List.mem_map.mpr ⟨i,present,presents.1⟩
    backed := kept.backed
    spent := by
      intro id r' found claimed
      rw [more] at claimed
      rcases List.mem_append.mp claimed with old | new
      · exact kept.spent id r' found old
      · cases List.mem_singleton.mp new
        cases held.symm.trans found
        exact spent
    admitted := by
      intro waiting r' at'' inside
      rcases List.mem_append.mp inside with old | new
      · exact kept.admitted waiting r' at'' old
      · cases List.mem_singleton.mp new
        exact ⟨i,present,backs,presents,live⟩
    confirmed := kept.confirmed
    dispatched := by
      intro waiting r' inside
      rcases List.mem_append.mp inside with old | new
      · exact kept.dispatched waiting r' old
      · cases List.mem_singleton.mp new
    completed := kept.completed
    cached := kept.cached
    replayed := kept.replayed}

theorem attempt_kept (kept : Kept d s) (held : s.pending.get req.requestId = some r)
    (unspent : r.consumed = false) (live : clock.now < r.expiresAt) :
    Kept d (attempt d req r allowWrite clock s) := by
  have spent := consume_kept kept held
  obtain ⟨i,present,named,token,target,mode,hash,expiry⟩ := kept.backed _ r held
  unfold attempt
  split
  · exact rejectExecute_kept spent
  split
  · exact rejectExecute_kept spent
  split
  · exact rejectExecute_kept spent
  · rename_i equal same _
    have equal : r.token = req.confirmToken := by simpa [tokenEquals] using equal
    have same : r.messageSha256 = d.sha256 req.message := by simpa [digestMessage] using same
    refine admit_kept (i := i) spent (by simp [consume,Dict.get_set]) rfl ?_ present
      ⟨named,token,target,mode,hash,expiry⟩ ⟨named,token.symm.trans equal,hash.symm.trans same⟩ (expiry ▸ live)
    intro claimed
    have := kept.spent _ r held claimed
    simp [unspent] at this

theorem bound_presents (backs : Backed i d req.requestId r) (bounded : bound d r req = true) : Presents d i req := by
  obtain ⟨named,token,_,_,hash,_⟩ := backs
  simp only [bound,tokenEquals,Bool.and_eq_true,decide_eq_true_eq] at bounded
  exact ⟨named,token.symm.trans bounded.1,hash.symm.trans bounded.2⟩

theorem record_seen (entry : InjectLogEntry) (s : State) :
    (record entry s).issued = s.issued ∧ (record entry s).completed = s.completed := by
  simp [record]

theorem replay_kept (kept : Kept d s) (present : i ∈ s.issued) (presents : Presents d i req)
    (first : (req.requestId,cached.result) ∈ s.completed) : Kept d (replay d req held cached clock s) := by
  unfold replay logExecuteResult
  refine answer_kept (record_kept kept _) fun _ => ?_
  simp only [record_seen]
  exact ⟨⟨i,present,presents⟩,cached.result,first,rfl⟩

theorem execute_kept (kept : Kept d s) : Kept d (execute d req allowWrite clock s) := by
  have pruned := prune_kept kept clock.now
  unfold execute
  generalize prune clock.now s = p at pruned
  simp only
  split
  · exact rejectExecute_kept pruned
  · rename_i cached r first held
    split
    · exact rejectExecute_kept pruned
    · rename_i bounded
      obtain ⟨i,present,backs⟩ := pruned.backed _ r held
      exact replay_kept pruned present (bound_presents backs (by simpa using bounded)) (pruned.cached _ _ first)
  · split
    · exact rejectExecute_kept pruned
    split
    · exact rejectExecute_kept pruned
    · rename_i r held
      split
      · exact rejectExecute_kept pruned
      split
      · refine rejectExecute_kept (shrunk_kept pruned ?_ (fun _ _ found => found) rfl)
        intro id r' found
        rw [Dict.get_erase] at found
        split at found
        · cases found
        · exact found
      · rename_i unspent live
        exact attempt_kept pruned held (by simpa using unspent) (by omega)

theorem fired_kept (kept : Kept d s) (waiting : .confirming req r at' ∈ s.threads) (kind : ExecutorKind)
    (now : Nat) : Kept d (fire kind req r at' now (resume (.confirming req r at') s)) := by
  obtain ⟨i,present,⟨named,token,target,mode,hash,expiry⟩,presents,live⟩ := kept.admitted req r at' waiting
  have resumed := resume_kept kept (.confirming req r at')
  have same : (claims (fire kind req r at' now (resume (.confirming req r at') s))).Perm (claims s) := by
    have threads := (List.perm_cons_erase waiting).filterMap Thread.claim
    simp only [claims,fire,resume,List.map_append,List.map_cons,List.map_nil,List.append_assoc]
    exact threads.symm.append_left _
  exact {
    issuedOnce := kept.issuedOnce
    claimedOnce := same.nodup_iff.mpr kept.claimedOnce
    known := fun id claimed => kept.known id (same.subset claimed)
    backed := kept.backed
    spent := fun id r' held claimed => kept.spent id r' held (same.subset claimed)
    admitted := resumed.admitted
    confirmed := by
      intro f inside
      rcases List.mem_append.mp inside with old | new
      · exact kept.confirmed f old
      · cases List.mem_singleton.mp new
        exact ⟨i,present,presents,target,mode,live⟩
    dispatched := fun req' r' inside => by
      simp only [fire,List.map_append]
      exact List.mem_append_left _ (resumed.dispatched req' r' inside)
    completed := fun c inside => by
      simp only [fire,List.map_append]
      exact List.mem_append_left _ (kept.completed c inside)
    cached := kept.cached
    replayed := kept.replayed}

theorem executeVerified_kept (kept : Kept d s) (waiting : .confirming req r at' ∈ s.threads) :
    Kept d (executeVerified d req r at' verdict clock (resume (.confirming req r at') s)) := by
  have resumed := resume_kept kept (.confirming req r at')
  unfold executeVerified
  split
  · exact rejectExecute_kept resumed
  · split
    · exact rejectExecute_kept resumed
    · rename_i kind _
      refine wait_kept (fired_kept kept waiting kind clock.now) rfl ?_
      rintro req' r' ⟨⟩
      simp [fire]

theorem settled_kept (kept : Kept d s) (fired : req.requestId ∈ s.fired.map (·.requestId)) :
    Kept d (executeSettled d req r settled clock s) := by
  unfold executeSettled logExecuteResult
  refine answer_kept (record_kept ?_ _) nofun
  exact {
    issuedOnce := kept.issuedOnce
    claimedOnce := kept.claimedOnce
    known := kept.known
    backed := kept.backed
    spent := kept.spent
    admitted := kept.admitted
    confirmed := kept.confirmed
    dispatched := kept.dispatched
    completed := by
      intro c inside
      rcases List.mem_append.mp inside with old | new
      · exact kept.completed c old
      · cases List.mem_singleton.mp new; exact fired
    cached := by
      intro id c found
      rw [Dict.get_set] at found
      split at found
      · rename_i same
        cases found
        simp [same]
      · exact List.mem_append_left _ (kept.cached id c found)
    replayed := by
      intro a inside from'
      obtain ⟨presents,first,old,same⟩ := kept.replayed a inside from'
      exact ⟨presents,first,List.mem_append_left _ old,same⟩}

theorem prepare_kept (kept : Kept d s) : Kept d (prepare d req allowWrite clock s) := by
  have pruned := prune_kept kept clock.now
  unfold prepare
  simp only
  split
  · exact rejectPrepare_kept pruned
  split
  · exact rejectPrepare_kept pruned
  · exact wait_kept pruned rfl nofun

theorem prepareVerified_kept (kept : Kept d s) (fresh : draw.requestId ∉ s.issued.map (·.2.requestId)) :
    Kept d (prepareVerified d req verdict clock draw s) := by
  unfold prepareVerified
  split
  · exact rejectPrepare_kept kept
  split
  · exact rejectPrepare_kept kept
  split
  · exact wait_kept kept rfl nofun
  · exact issue_kept kept fresh

theorem preparePreflighted_kept (kept : Kept d s) (fresh : draw.requestId ∉ s.issued.map (·.2.requestId)) :
    Kept d (preparePreflighted d req status preflight clock draw s) := by
  unfold preparePreflighted
  split
  · exact rejectPrepare_kept kept
  · exact rejectPrepare_kept kept
  · exact issue_kept kept fresh

theorem advance_kept (kept : Kept d s) (fresh : Fresh s event) (accepted : advance d s event = some after) :
    Kept d after := by
  cases event with
  | prepare req allowWrite clock => cases accepted; exact prepare_kept kept
  | execute req allowWrite clock => cases accepted; exact execute_kept kept
  | verified t verdict clock draw =>
    simp only [advance] at accepted
    split at accepted
    · rename_i waiting
      split at accepted
      · cases accepted; exact prepareVerified_kept (resume_kept kept _) fresh
      · cases accepted; exact executeVerified_kept kept waiting
      · cases accepted
    · cases accepted
  | preflighted t preflight clock draw =>
    simp only [advance] at accepted
    split at accepted
    · split at accepted
      · cases accepted; exact preparePreflighted_kept (resume_kept kept _) fresh
      · cases accepted
    · cases accepted
  | settled t result clock =>
    simp only [advance] at accepted
    split at accepted
    · rename_i waiting
      split at accepted
      · cases accepted; exact settled_kept (resume_kept kept _) (kept.dispatched _ _ waiting)
      · cases accepted
    · cases accepted

@[simp] theorem record_fired (entry : InjectLogEntry) (s : State) : (record entry s).fired = s.fired := by
  simp [record]
@[simp] theorem answer_fired (s : State) : (answer req result cached s).fired = s.fired := rfl
@[simp] theorem rejectPrepare_fired (s : State) : (rejectPrepare d req code detail hide clock s).fired = s.fired := by
  simp [rejectPrepare]
@[simp] theorem rejectExecute_fired (s : State) : (rejectExecute d req held code clock s).fired = s.fired := by
  simp [rejectExecute]
@[simp] theorem wait_fired (s : State) : (wait t s).fired = s.fired := rfl
@[simp] theorem resume_fired (s : State) : (resume t s).fired = s.fired := rfl
@[simp] theorem prune_fired (s : State) : (prune now s).fired = s.fired := rfl
@[simp] theorem issue_fired (s : State) : (issue d req status clock draw s).fired = s.fired := by
  unfold issue; split <;> simp

theorem execute_fired (s : State) : (execute d req allowWrite clock s).fired = s.fired := by
  have attempted : ∀ r p, (attempt d req r allowWrite clock p).fired = p.fired := by
    intro r p
    unfold attempt
    split <;> [skip; (split <;> [skip; split])] <;> simp [consume]
  unfold execute
  simp only
  split
  · simp
  · split
    · simp
    · simp [replay,logExecuteResult]
  · split
    · simp
    split
    · simp
    split
    · simp
    split
    · simp
    · simp [attempted]

theorem advance_fired (accepted : advance d s event = some after) : ∃ more, after.fired = s.fired ++ more := by
  cases event with
  | prepare req allowWrite clock =>
    cases accepted
    refine ⟨[],?_⟩
    unfold prepare
    simp only
    split <;> [skip; split] <;> simp
  | execute req allowWrite clock => cases accepted; exact ⟨[],by simp [execute_fired]⟩
  | verified t verdict clock draw =>
    simp only [advance] at accepted
    split at accepted
    · split at accepted
      · cases accepted
        refine ⟨[],?_⟩
        unfold prepareVerified
        split <;> [skip; (split <;> [skip; split])] <;> simp
      · cases accepted
        unfold executeVerified
        split
        · exact ⟨[],by simp⟩
        split
        · exact ⟨[],by simp⟩
        · exact ⟨_,rfl⟩
      · cases accepted
    · cases accepted
  | preflighted t preflight clock draw =>
    simp only [advance] at accepted
    split at accepted
    · split at accepted
      · cases accepted
        refine ⟨[],?_⟩
        unfold preparePreflighted
        split <;> simp
      · cases accepted
    · cases accepted
  | settled t result clock =>
    simp only [advance] at accepted
    split at accepted
    · split at accepted
      · cases accepted; exact ⟨[],by simp [executeSettled,logExecuteResult]⟩
      · cases accepted
    · cases accepted

theorem run_fired (path : Run (advance d) allowed s events after) : ∃ more, after.fired = s.fired ++ more := by
  refine path.invariant (fun t => ∃ more, t.fired = s.fired ++ more) ⟨[],by simp⟩ ?_
  rintro before event t ⟨more,old⟩ _ accepted
  obtain ⟨new,added⟩ := advance_fired accepted
  exact ⟨more ++ new,by rw [added,old,List.append_assoc]⟩

theorem run_kept (path : Run (advance d) Fresh {} events s) : Kept d s :=
  path.invariant (Kept d) (initial_kept d) fun _ _ _ kept fresh accepted => advance_kept kept fresh accepted

theorem settled_stays {s : State} (kept : Kept d t) (more : t.fired = s.fired ++ new)
    (fired : id' ∈ s.fired.map (·.requestId)) :
    t.fired.filter (·.requestId = id') = s.fired.filter (·.requestId = id') := by
  rw [more,List.filter_append,List.append_right_eq_self,List.filter_eq_nil_iff]
  intro f inside same
  have once := (kept_sound kept).firedOnce
  rw [more,List.map_append] at once
  exact (List.nodup_append.mp once).2.2 _ fired _ (List.mem_map.mpr ⟨f,inside,rfl⟩) (by simpa [eq_comm] using same)

theorem gateway_fires_once (d : Deps) (early late : List Event) (s t : State)
    (path : Run (advance d) Fresh {} early s) (onward : Run (advance d) Fresh s late t) :
    Sound d t ∧ ∀ id result, (id,result) ∈ s.completed → result.outcome = .unknown →
      t.fired.filter (·.requestId = id) = s.fired.filter (·.requestId = id) := by
  have kept := run_kept (path.append onward)
  refine ⟨kept_sound kept,fun id result finished _ => ?_⟩
  obtain ⟨new,more⟩ := run_fired onward
  exact settled_stays kept more ((run_kept path).completed _ finished)

-- A claude session is confirmed, the executor answers unknown, and a repeat is served the cache.
def eligibleRow : TargetStatus :=
  {agent := "claude",sessionId := "s",status := "idle",injectEligibility := some ⟨true,"eligible"⟩}
def helloPrepare : PrepareRequest := ⟨⟨"claude","s"⟩,.queue,"hello"⟩
def helloExecute : ExecuteRequest := ⟨"r","t","hello"⟩
def helloRecord : PendingToken := ⟨"t",⟨"claude","s"⟩,.queue,"hello",60000,true⟩

def repeatedRun : List Event :=
  [.prepare helloPrepare true ⟨0,0⟩,.verified (.preparing helloPrepare) (.row eligibleRow) ⟨0,0⟩ ⟨"r","t"⟩,
    .execute helloExecute true ⟨10,10⟩,
    .verified (.confirming helloExecute helloRecord 10) (.row eligibleRow) ⟨20,20⟩ ⟨"q","u"⟩,
    .settled (.dispatched helloExecute helloRecord) (some {outcome := .unknown}) ⟨30,30⟩]

theorem repeated_run_fires_once : ∃ s t, Run (advance ⟨id,fun _ => false⟩) Fresh {} repeatedRun s ∧
    Run (advance ⟨id,fun _ => false⟩) Fresh s [.execute helloExecute true ⟨40,40⟩] t ∧
    (t.answers.map (·.cached)) = [false,true] ∧ Sound ⟨id,fun _ => false⟩ t := by
  have path : Run (advance ⟨id,fun _ => false⟩) Fresh {} repeatedRun _ :=
    .cons trivial rfl (.cons (show "r" ∉ ([] : List String) from List.not_mem_nil) rfl (.cons trivial rfl
      (.cons (show "q" ∉ ["r"] by decide) rfl (.cons trivial rfl .nil))))
  refine ⟨_,_,path,.cons trivial rfl .nil,rfl,?_⟩
  exact (gateway_fires_once _ _ [.execute helloExecute true ⟨40,40⟩] _ _ path (.cons trivial rfl .nil)).1

-- Admitted one millisecond before its token expires, a request waits for the
-- verifier and is dispatched after the expiry.
theorem late_run_fires_expired : ∃ s, Run (advance ⟨id,fun _ => false⟩) Fresh {}
    [.prepare helloPrepare true ⟨0,0⟩,.verified (.preparing helloPrepare) (.row eligibleRow) ⟨0,0⟩ ⟨"r","t"⟩,
      .execute helloExecute true ⟨59999,59999⟩,
      .verified (.confirming helloExecute helloRecord 59999) (.row eligibleRow) ⟨60001,60001⟩ ⟨"q","u"⟩] s ∧
    s.fired.map (·.firedAt) = [60001] ∧ s.issued.map (·.2.expiresAt) = [60000] := by
  exact ⟨_,.cons trivial rfl (.cons (show "r" ∉ ([] : List String) from List.not_mem_nil) rfl (.cons trivial rfl
    (.cons (show "q" ∉ ["r"] by decide) rfl .nil))),rfl,rfl⟩

end AgentSideCar.InjectGateway
