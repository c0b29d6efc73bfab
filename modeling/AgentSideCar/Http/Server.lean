import AgentSideCar.Http.Reader
import AgentSideCar.Library.Dumps

namespace AgentSideCar.Http
open Dumps (Object Writer)
open Inbound (Wire)
open Loads (Text str)
variable {ε F : Type}

def maxResponseBytes : Nat := 32 * 1024 * 1024

def decimal (n : Nat) : Bytes := (Digits.digits n).map fun c => c.toNat.toUInt8

def encodeJsonLine (w : Writer F) (payload : List (Text × Object F)) : Option Bytes :=
  ((Dumps.dumps w 0 (.dict payload)).bind Utf8.encode).bind fun encoded =>
    if maxResponseBytes < encoded.length + 1 then none else some (encoded ++ [lf])

-- The client of the daemon behind the server: what its status call gives, and what its
-- subscription brings until it ends. An event that is no mapping is none here.
structure Upstream (F : Type) where
  status : Option (Object F × Object F × Object F)
  events : Option (List (Option (List (Text × Object F))))

-- The nonce is the one drawn for the answer. A stream is cancelled by its monitor, when the client
-- is gone or sends more, and ends with the server: whether that has come to be by the nth event.
structure Server (F : Type) where
  port : Nat
  token : Bytes
  nonce : Bytes
  panel : Bytes → Bytes
  writer : Writer F
  slot : Bool
  upstream : Upstream F
  cancelled : Nat → Bool

-- What a server does for a request: it calls the client, or sends.
inductive Act where
  | contacted
  | sent (bytes : Bytes)
  deriving DecidableEq

def reason : Nat → Bytes
  | 200 => ascii "OK"
  | 400 => ascii "Bad Request"
  | 401 => ascii "Unauthorized"
  | 403 => ascii "Forbidden"
  | 404 => ascii "Not Found"
  | 405 => ascii "Method Not Allowed"
  | 408 => ascii "Request Timeout"
  | 413 => ascii "Content Too Large"
  | 414 => ascii "URI Too Long"
  | 417 => ascii "Expectation Failed"
  | 431 => ascii "Request Header Fields Too Large"
  | 500 => ascii "Internal Server Error"
  | 502 => ascii "Bad Gateway"
  | 503 => ascii "Service Unavailable"
  | 505 => ascii "HTTP Version Not Supported"
  | _ => []

def jsonType : Bytes := ascii "application/json; charset=utf-8"
def htmlType : Bytes := ascii "text/html; charset=utf-8"
def ndjsonType : Bytes := ascii "application/x-ndjson; charset=utf-8"

def policy (nonce : Bytes) : Bytes :=
  ascii "default-src 'none'; script-src 'nonce-" ++ nonce ++ ascii "'; style-src 'nonce-" ++ nonce ++
    ascii "'; connect-src 'self'; img-src 'none'; frame-ancestors 'none'; base-uri 'none'; form-action 'self'"

def securityHeaders (nonce : Bytes) : List (Bytes × Bytes) :=
  [(ascii "Cache-Control",ascii "no-store"),(ascii "X-Content-Type-Options",ascii "nosniff"),(ascii "X-Frame-Options",ascii "DENY"),
    (ascii "Referrer-Policy",ascii "no-referrer"),(ascii "Content-Security-Policy",policy nonce)]

def statusLine (status : Nat) : Bytes := ascii "HTTP/1.1 " ++ (decimal status ++ blank :: reason status)

def writeHeaders (status : Nat) (headers : List (Bytes × Bytes)) : Bytes :=
  Pairs.join cr lf (statusLine status :: headers.map fun header => header.1 ++ ascii ": " ++ header.2) ++ Pairs.blank cr lf

def responseHeaders (nonce contentType : Bytes) (length : Nat) : List (Bytes × Bytes) :=
  (ascii "Content-Type",contentType) :: (ascii "Content-Length",decimal length) :: (ascii "Connection",ascii "close") :: securityHeaders nonce

-- A body over the limit is an error of the server's own.
def sendResponse (nonce : Bytes) (status : Nat) (body : Bytes) (headOnly : Bool) (contentType : Bytes) : Except Unit (List Act) :=
  if maxResponseBytes < body.length then .error ()
  else
    let head := Act.sent (writeHeaders status (responseHeaders nonce contentType body.length))
    .ok (if headOnly ∨ body = [] then [head] else [head,.sent body])

def streamHeaders (nonce : Bytes) : Act :=
  .sent (writeHeaders 200 ((ascii "Content-Type",ndjsonType) :: (ascii "Connection",ascii "close") :: securityHeaders nonce))

def errorBody (code : String) : Bytes := ascii ("\x7b\"ok\":false,\"error\":\"" ++ code ++ "\"\x7d\n")
def healthBody : Bytes := ascii "\x7b\"ok\":true\x7d\n"
def subscribed : Bytes := ascii "\x7b\"ok\":true,\"op\":\"subscribe\"\x7d\n"

def refuse (s : Server F) (status : Nat) (code : String) (headOnly : Bool) : Except Unit (List Act) :=
  sendResponse s.nonce status (errorBody code) headOnly jsonType

def statusPath : Bytes := ascii "/api/v1/status"
def eventsPath : Bytes := ascii "/api/v1/events"
def healthPath : Bytes := ascii "/api/v1/health"

def expectedHost (port : Nat) : Bytes := ascii "127.0.0.1:" ++ decimal port
def expectedOrigin (port : Nat) : Bytes := ascii "http://127.0.0.1:" ++ decimal port
def bearer (token : Bytes) : Bytes := ascii "Bearer " ++ token

def authorized (s : Server F) (request : Request) : Bool :=
  match values request.headers authorization with
  | [value] => value = bearer s.token
  | _ => false

def statusPayload (answer : Object F × Object F × Object F) : List (Text × Object F) :=
  [(str "ok",.bool true),(str "op",.text (str "status")),(str "sessions",answer.1),(str "scan_errors",answer.2.1),(str "tail_errors",answer.2.2)]

def serveStatus (s : Server F) (headOnly : Bool) : Except Unit (List Act) :=
  (match s.upstream.status.bind fun answer => encodeJsonLine s.writer (statusPayload answer) with
    | none => refuse s 502 "upstream_error" headOnly
    | some body => sendResponse s.nonce 200 body headOnly jsonType).map (Act.contacted :: ·)

-- Events are sent as they come, up to the first that finds the stream cancelled, is no mapping or
-- cannot be written.
def streamEvents (w : Writer F) (cancelled : Nat → Bool) : Nat → List (Option (List (Text × Object F))) → List Bytes
  | turn,some event :: events =>
    if cancelled turn then []
    else match encodeJsonLine w event with
      | some line => line :: streamEvents w cancelled (turn + 1) events
      | none => []
  | _,_ => []

def serveEvents (s : Server F) (headOnly : Bool) : Except Unit (List Act) :=
  if headOnly then .ok [streamHeaders s.nonce]
  else if s.slot = false then refuse s 503 "unavailable" false
  else match s.upstream.events with
    | none => .ok [.contacted]
    | some events => .ok (.contacted :: streamHeaders s.nonce :: .sent subscribed :: (streamEvents s.writer s.cancelled 0 events).map Act.sent)

def question : UInt8 := 63

def dispatch (s : Server F) (request : Request) : Except Unit (List Act) :=
  let headOnly := decide (request.method = methodHead)
  let origins := values request.headers origin
  let path := request.target.takeWhile (· ≠ question)
  let separator := decide (question ∈ request.target)
  if request.headers.get host ≠ some [expectedHost s.port] then refuse s 400 "bad_request" headOnly
  else if origins ≠ [] ∧ origins ≠ [expectedOrigin s.port] then refuse s 403 "forbidden" headOnly
  else if ascii "/api/" <+: path ∧ separator then refuse s 400 "bad_request" headOnly
  else if path = [slash] ∧ separator = false then sendResponse s.nonce 200 (s.panel s.nonce) headOnly htmlType
  else if path = healthPath then sendResponse s.nonce 200 healthBody headOnly jsonType
  else if path ≠ statusPath ∧ path ≠ eventsPath then refuse s 404 "not_found" headOnly
  else if authorized s request = false then refuse s 401 "unauthorized" headOnly
  else if path = statusPath then serveStatus s headOnly
  else serveEvents s headOnly

-- An error of the server's own is answered too. Where a send fails, nothing more is done.
def answered (s : Server F) (outcome : Except Unit (List Act)) : List Act :=
  match outcome with
  | .ok acts => acts
  | .error () => match refuse s 500 "internal_error" false with
    | .ok acts => acts
    | .error () => []

def handleClient (limit : Option Nat) (s : Server F) (turns : Nat) (w : Wire UInt8 ε) : List Act :=
  match (readRequest limit turns w).1 with
  | .asked request => answered s (dispatch s request)
  | .gone => []
  | .broken _ => []
  | .fault (.refused status headOnly) => answered s (refuse s status "bad_request" headOnly)
  | .fault .valueError => answered s (.error ())

-- A request that may see what the daemon knows.
structure Authorized (s : Server F) (q : Asked limit) : Prop where
  host : valuesOf q.fields host = [expectedHost s.port]
  origin : valuesOf q.fields origin = [] ∨ valuesOf q.fields origin = [expectedOrigin s.port]
  bearer : valuesOf q.fields authorization = [bearer s.token]
  path : q.target = statusPath ∨ q.target = eventsPath

section Privacy

theorem values_single (headers : Dict Bytes (List Bytes)) (key value : Bytes) : headers.get key = some [value] ↔ values headers key = [value] := by
  unfold values
  cases headers.get key <;> simp

theorem authorized_exact (s : Server F) (r : Request) : authorized s r = true ↔ values r.headers authorization = [bearer s.token] := by
  unfold authorized
  split
  · rename_i value own
    simp [own]
  · rename_i other
    exact ⟨nofun,fun own => absurd own (other _)⟩

theorem path_whole {target : Bytes} (served : target.takeWhile (· ≠ question) = statusPath ∨ target.takeWhile (· ≠ question) = eventsPath)
    (single : ¬ (ascii "/api/" <+: target.takeWhile (· ≠ question) ∧ decide (question ∈ target) = true)) :
    target = statusPath ∨ target = eventsPath := by
  have begins : ascii "/api/" <+: target.takeWhile (· ≠ question) := by
    rcases served with own | own <;> rw [own] <;> decide
  have free : question ∉ target := fun inside => single ⟨begins,decide_eq_true inside⟩
  have whole : target.takeWhile (· ≠ question) = target :=
    List.takeWhile_eq_self_iff.mpr fun b inside => decide_eq_true fun same => free (same ▸ inside)
  rwa [whole] at served

theorem response_quiet (sent : sendResponse nonce status body headOnly kind = .ok acts) : Act.contacted ∉ acts := by
  unfold sendResponse at sent
  split at sent
  · cases sent
  · cases sent
    split <;> simp

theorem authorized_locked {s : Server F} {q : Asked limit} {r : Request} (carries : Carries q r) (apart : ¬ Authorized s q)
    (named : r.headers.get host = some [expectedHost s.port])
    (plain : ¬ (values r.headers origin ≠ [] ∧ values r.headers origin ≠ [expectedOrigin s.port]))
    (served : r.target = statusPath ∨ r.target = eventsPath) : authorized s r = false := by
  by_contra granted
  rw [Bool.not_eq_false,authorized_exact,carries.values] at granted
  rw [values_single,carries.values] at named
  rw [carries.values,not_and_or,not_not,not_not] at plain
  exact apart ⟨named,plain,granted,carries.target ▸ served⟩

theorem dispatch_private {s s' : Server F} (port : s.port = s'.port) (nonce : s.nonce = s'.nonce) (panel : s.panel = s'.panel)
    {q : Asked limit} {r : Request} (carries : Carries q r) (apart : ¬ Authorized s q) (apart' : ¬ Authorized s' q) :
    dispatch s r = dispatch s' r ∧ ∀ acts, dispatch s r = .ok acts → Act.contacted ∉ acts := by
  have locked := authorized_locked carries apart
  have locked' := authorized_locked carries apart'
  unfold dispatch
  simp only [port,nonce,panel,refuse] at locked ⊢
  by_cases unnamed : r.headers.get host ≠ some [expectedHost s'.port]
  · simp only [if_pos unnamed]
    exact ⟨trivial,fun _ => response_quiet⟩
  by_cases foreign : values r.headers origin ≠ [] ∧ values r.headers origin ≠ [expectedOrigin s'.port]
  · simp only [if_neg unnamed,if_pos foreign]
    exact ⟨trivial,fun _ => response_quiet⟩
  by_cases queried : ascii "/api/" <+: r.target.takeWhile (· ≠ question) ∧ decide (question ∈ r.target) = true
  · simp only [if_neg unnamed,if_neg foreign,if_pos queried]
    exact ⟨trivial,fun _ => response_quiet⟩
  by_cases root : r.target.takeWhile (· ≠ question) = [slash] ∧ decide (question ∈ r.target) = false
  · simp only [if_neg unnamed,if_neg foreign,if_neg queried,if_pos root]
    exact ⟨trivial,fun _ => response_quiet⟩
  by_cases health : r.target.takeWhile (· ≠ question) = healthPath
  · simp only [if_neg unnamed,if_neg foreign,if_neg queried,if_neg root,if_pos health]
    exact ⟨trivial,fun _ => response_quiet⟩
  by_cases missing : r.target.takeWhile (· ≠ question) ≠ statusPath ∧ r.target.takeWhile (· ≠ question) ≠ eventsPath
  · simp only [if_neg unnamed,if_neg foreign,if_neg queried,if_neg root,if_neg health,if_pos missing]
    exact ⟨trivial,fun _ => response_quiet⟩
  rw [not_and_or,not_not,not_not] at missing
  have served := path_whole missing queried
  have shut := locked (not_not.mp unnamed) foreign served
  have shut' := locked' (not_not.mp unnamed) foreign served
  have found : ¬ (r.target.takeWhile (· ≠ question) ≠ statusPath ∧ r.target.takeWhile (· ≠ question) ≠ eventsPath) := by
    rwa [not_and_or,not_not,not_not]
  simp only [if_neg unnamed,if_neg foreign,if_neg queried,if_neg root,if_neg health,if_neg found,if_pos shut,if_pos shut']
  exact ⟨trivial,fun _ => response_quiet⟩

theorem answered_quiet (s : Server F) (quiet : ∀ acts, outcome = .ok acts → Act.contacted ∉ acts) : Act.contacted ∉ answered s outcome := by
  unfold answered
  split
  · exact quiet _ rfl
  · split
    · rename_i acts sent
      exact response_quiet sent
    · simp

-- The daemon is asked for nothing, and nothing that is answered tells of it or of the token, unless
-- what was received is a request that names the server and holds the token.
theorem handleClient_private (limit : Option Nat) (turns : Nat) (w : Wire UInt8 ε) (s s' : Server F) (port : s.port = s'.port)
    (nonce : s.nonce = s'.nonce) (panel : s.panel = s'.panel)
    (apart : ∀ (q : Asked limit) rest, w.unread = q.head ++ Pairs.blank cr lf ++ rest → ¬ Authorized s q ∧ ¬ Authorized s' q) :
    handleClient limit s turns w = handleClient limit s' turns w ∧ Act.contacted ∉ handleClient limit s turns w := by
  have alike : ∀ outcome, answered s outcome = answered s' outcome := by
    intro outcome
    unfold answered refuse
    rw [nonce]
  have refused : ∀ status headOnly, refuse s status "bad_request" headOnly = refuse s' status "bad_request" headOnly := by
    intro status headOnly
    unfold refuse
    rw [nonce]
  unfold handleClient
  cases read : readRequest limit turns w with
  | mk reading later =>
    cases reading with
    | gone | broken _ => exact ⟨rfl,by simp⟩
    | fault fault =>
      cases fault with
      | valueError => exact ⟨alike _,answered_quiet s nofun⟩
      | refused status headOnly =>
        refine ⟨?_,answered_quiet s fun _ => response_quiet⟩
        simp only [refused]
        exact alike _
    | asked r =>
      obtain ⟨q,own,_,carries⟩ := (readRequest_accepts limit turns w).1 r later read
      obtain ⟨out,out'⟩ := apart q later.unread own
      obtain ⟨same,quiet⟩ := dispatch_private port nonce panel carries out out'
      refine ⟨?_,answered_quiet s quiet⟩
      simp only [same]
      exact alike _

def demoWriter : Writer Unit := ⟨1000,fun n => some (Dumps.decimal n),fun _ => none⟩
def demoServer (token : String) (upstream : Upstream Unit) : Server Unit :=
  ⟨80,ascii token,ascii "nonce",id,demoWriter,true,upstream,fun _ => false⟩

theorem authorized_within {s : Server F} {q : Asked limit} (granted : Authorized s q) : bearer s.token <:+: q.head := by
  obtain ⟨f,inside,own⟩ := List.mem_map.mp (granted.bearer ▸ List.mem_singleton_self (bearer s.token) : bearer s.token ∈ valuesOf q.fields authorization)
  have there : f.line ∈ q.start :: q.fields.map Field.line :=
    List.mem_cons_of_mem _ (List.mem_map_of_mem (List.mem_of_mem_filter inside))
  have held : f.value <:+: f.line := ⟨f.name ++ colon :: f.before,f.after,by simp [Field.line]⟩
  exact own ▸ held.trans (Pairs.join_within there)

def tokenlessWire : Wire UInt8 Unit := ⟨ascii "GET /api/v1/status HTTP/1.1\r\nHost: 127.0.0.1:80\r\n\r\n",fun _ => 6,.silent⟩

-- Two servers answer a request without a token, and neither with what its daemon knows.
theorem tokenless_private : (handleClient none (demoServer "one" ⟨none,none⟩) 100 tokenlessWire).length = 2 ∧
    handleClient none (demoServer "one" ⟨none,none⟩) 100 tokenlessWire =
      handleClient none (demoServer "two" ⟨some (.null,.null,.null),none⟩) 100 tokenlessWire ∧
    Act.contacted ∉ handleClient none (demoServer "one" ⟨none,none⟩) 100 tokenlessWire := by
  refine ⟨by decide +kernel,handleClient_private none 100 _ _ _ rfl rfl rfl fun q rest own => ?_⟩
  have begun : q.head <:+: tokenlessWire.unread := own ▸ ((List.prefix_append _ _).trans (List.prefix_append _ _)).isInfix
  exact ⟨fun granted => absurd ((authorized_within granted).trans begun) (by decide +kernel),
    fun granted => absurd ((authorized_within granted).trans begun) (by decide +kernel)⟩

end Privacy

section Events
variable {w : Writer F} {read : Int → Int → F}

-- An event that a reader of the daemon can have given: fields of different names, of code points.
structure Fits (event : List (Text × Object F)) : Prop where
  distinct : Dumps.Distinct (Object.dict event)
  points : ∀ c, Dumps.Holds c (Object.dict event) → c < 1114112

-- A line that reads as an event.
structure Reads (read : Int → Int → F) (row : Bytes) (event : List (Text × Object F)) : Prop where
  clean : lf ∉ row
  value : ∃ fields, Loads.parseBytes row = some (.dict fields) ∧ Dumps.entries read fields = event

theorem encodeJsonLine_reads (exact' : Dumps.Exact w read) (fits : Fits event) (encoded : encodeJsonLine w event = some line) :
    ∃ row, line = row ++ [lf] ∧ Reads read row event := by
  obtain ⟨row,bytes,within⟩ := Option.bind_eq_some_iff.mp encoded
  obtain ⟨text,written,utf8⟩ := Option.bind_eq_some_iff.mp bytes
  split at within
  · cases within
  · cases within
    obtain ⟨clean,value⟩ := Dumps.dict_line exact' fits.distinct fits.points written utf8
    exact ⟨row,rfl,clean,value⟩

-- How far the events go: to the end, or to one that finds the stream cancelled, is no mapping or
-- cannot be written.
def Halts (w : Writer F) (cancelled : Nat → Bool) (turn : Nat) (rest : List (Option (List (Text × Object F)))) : Prop :=
  ∀ next, rest.head? = some next → cancelled turn = true ∨ ∀ event, next = some event → encodeJsonLine w event = none

theorem streamEvents_exact (exact' : Dumps.Exact w read) (cancelled : Nat → Bool) (turn : Nat)
    (events : List (Option (List (Text × Object F)))) (fit : ∀ event, some event ∈ events → Fits event) :
    ∃ front rows rest, events = front.map some ++ rest ∧ Halts w cancelled (turn + front.length) rest ∧
      streamEvents w cancelled turn events = rows.map (· ++ [lf]) ∧ List.Forall₂ (Reads read) rows front := by
  induction events generalizing turn with
  | nil => exact ⟨[],[],[],rfl,nofun,rfl,.nil⟩
  | cons next events ih =>
    cases next with
    | none => exact ⟨[],[],none :: events,rfl,by rintro _ ⟨⟩; exact .inr nofun,rfl,.nil⟩
    | some event =>
      by_cases halted : cancelled turn = true
      · exact ⟨[],[],some event :: events,rfl,fun _ _ => .inl halted,by rw [streamEvents,if_pos halted]; rfl,.nil⟩
      cases encoded : encodeJsonLine w event with
      | none =>
        refine ⟨[],[],some event :: events,rfl,?_,by rw [streamEvents,if_neg halted,encoded]; rfl,.nil⟩
        rintro _ ⟨⟩
        refine .inr ?_
        rintro _ ⟨⟩
        exact encoded
      | some line =>
        obtain ⟨row,rfl,reads⟩ := encodeJsonLine_reads exact' (fit event List.mem_cons_self) encoded
        obtain ⟨front,rows,rest,rfl,halts,streamed,later⟩ := ih (turn + 1) fun event inside => fit event (List.mem_cons_of_mem _ inside)
        refine ⟨event :: front,row :: rows,rest,rfl,?_,?_,.cons reads later⟩
        · rwa [List.length_cons,Nat.add_comm front.length,← Nat.add_assoc]
        · rw [streamEvents,if_neg halted,encoded]
          simp only [streamed,List.map_cons]

end Events

section Service
variable {limit : Option Nat} {turns : Nat} {wire : Wire UInt8 ε} {s : Server F} {q : Asked limit}

-- A request that arrives whole, in time and with nothing behind it.
structure Received (turns : Nat) (wire : Wire UInt8 ε) (q : Asked limit) : Prop where
  stream : wire.unread = q.head ++ Pairs.blank cr lf
  within : q.head.length + 4 ≤ maxHeaderBytes
  patience : wire.unread.length < turns

theorem dispatch_served {r : Request} (carries : Carries q r) (granted : Authorized s q) : dispatch s r =
    if q.target = statusPath then serveStatus s (decide (q.method = methodHead)) else serveEvents s (decide (q.method = methodHead)) := by
  have named : ¬ r.headers.get host ≠ some [expectedHost s.port] := by
    rw [not_not,values_single,carries.values]
    exact granted.host
  have plain : ¬ (values r.headers origin ≠ [] ∧ values r.headers origin ≠ [expectedOrigin s.port]) := by
    rw [carries.values,not_and_or,not_not,not_not]
    exact granted.origin
  have opened : ¬ authorized s r = false := by
    rw [Bool.not_eq_false,authorized_exact,carries.values]
    exact granted.bearer
  unfold dispatch
  simp only [carries.target,carries.method,if_neg named,if_neg plain,if_neg opened]
  rcases granted.path with own | own <;> rw [own] <;> rfl

theorem handleClient_served (received : Received turns wire q) (granted : Authorized s q) : handleClient limit s turns wire =
    answered s (if q.target = statusPath then serveStatus s (decide (q.method = methodHead))
      else serveEvents s (decide (q.method = methodHead))) := by
  obtain ⟨r,later,read,_,carries⟩ := (readRequest_accepts limit turns wire).2 q received.stream received.within received.patience
  unfold handleClient
  rw [read]
  simp only
  rw [dispatch_served carries granted]

def sentBytes (acts : List Act) : Bytes := acts.flatMap fun act =>
  match act with
  | .contacted => []
  | .sent bytes => bytes

def bearerField : Field := ⟨ascii "Authorization",[32],ascii "Bearer secret",[],by decide,space_pad,by decide,by decide⟩

theorem events_plain : ([slash] <+: eventsPath ∧ ¬ [slash,slash] <+: eventsPath) ∧
    (isAscii eventsPath = true ∧ hash ∉ eventsPath ∧ blank ∉ eventsPath ∧ lf ∉ eventsPath) ∧
    (methodGet ++ blank :: (eventsPath ++ blank :: ascii "HTTP/1.1")).length + 2 ≤ maxRequestLineBytes := by decide

theorem bearer_bodiless : Bodiless none (valuesOf [hostField,bearerField]) := ⟨by decide,by decide,by decide⟩

def demoAsked : Asked none :=
  ⟨methodGet,eventsPath,ascii "HTTP/1.1",[hostField,bearerField],get_known,latest_version,events_plain.1,events_plain.2.1,
    events_plain.2.2,bearer_bodiless⟩

def demoWire : Wire UInt8 Unit := ⟨demoAsked.head ++ Pairs.blank cr lf,fun _ => 0,.silent⟩

def demoEvents : List (Option (List (Text × Object Unit))) := [some [(str "n",.int 5)],none]

end Service

end AgentSideCar.Http
