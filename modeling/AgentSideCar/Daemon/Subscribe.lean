import AgentSideCar.Library.Inbound
import AgentSideCar.Send.Render

namespace AgentSideCar.Daemon.Subscribe
open Loads (Text str Value)
open Send (Escape Interpreter truthy)
open Cluster (field)
open Inbound

abbrev Bytes := List UInt8
def newline : UInt8 := 10

-- A SidecarClientError by its message and code, or another exception.
inductive Raised where
  | client (message code : Text)
  | escape (error : Escape)

-- The callback is only what it raises, if anything.
structure SidecarClient where
  interpreter : Interpreter
  maxResponseBytes : Nat
  onReady : Option Raised

-- A connection that has been made and has taken the request. A reset breaks it with some message.
abbrev Connection := Reader UInt8 Text

inductive Response where
  | answer (value : Value)
  | raised (error : Raised)
  | waiting

def invalidResponse (message : String) : Raised := .client (str message) (str "invalid_response")
def connectionClosed : Raised := .client (str "daemon closed the connection") (str "connection_closed")
def responseTooLarge (limit : Nat) : Raised :=
  .client (str ("daemon response exceeds " ++ toString limit ++ " bytes")) (str "response_too_large")
def readFailed (error : Text) : Raised := .client (str "failed reading daemon response: " ++ error) (str "read_failed")

-- bytes.decode("utf-8"): what is no text is marked by a number that is no code point.
def decodeUtf8 (raw : Bytes) : Option Text :=
  let text := Utf8.decode [1114112] raw
  if 1114112 ∈ text then none else some text

section Client
variable (c : SidecarClient)

def decodeResponse (raw : Bytes) : Except Raised Value :=
  match (decodeUtf8 raw).map c.interpreter.plain.loads with
  | some (.ok (.dict fields)) => .ok (.dict fields)
  | some (.ok _) => .error (invalidResponse "daemon response is not an object")
  | some (.error .integer) => .error (.escape .valueError)
  | some (.error .recursion) => .error (.escape .recursionError)
  | some (.error .malformed) => .error (invalidResponse "daemon returned invalid JSON")
  | none => .error (invalidResponse "daemon returned invalid JSON")

-- str(value or otherwise).
def spokenOr (value : Option Value) (otherwise : Text) : Except Raised Text :=
  match value.filter truthy with
  | some value => (c.interpreter.str value).mapError .escape
  | none => .ok otherwise

def raiseDaemonError (response : Value) : Except Raised Unit :=
  match field response "ok" with
  | some (.bool false) => do
    match field response "error" with
    | some (.dict fields) =>
      let code ← spokenOr c (field (.dict fields) "code") (str "daemon_error")
      let message ← spokenOr c (field (.dict fields) "message") code
      .error (.client message code)
    | error =>
      let message ← spokenOr c error (str "daemon_error")
      .error (.client message (str "daemon_error"))
  | _ => .ok ()

def validateSubscribeAcknowledgement (response : Value) : Except Raised Unit := do
  raiseDaemonError c response
  match field response "ok",field response "op",field response "error" with
  | some (.bool true),some (.text op),none =>
    if op = str "subscribe" then .ok () else .error (invalidResponse "daemon returned an invalid subscribe acknowledgement")
  | _,_,_ => .error (invalidResponse "daemon returned an invalid subscribe acknowledgement")

def respond (raw : Bytes) : Response :=
  match decodeResponse c raw with
  | .ok value => .answer value
  | .error e => .raised e

-- _read_response: a line of the buffered stream, which reads 8192 bytes at a time.
def readResponse (s : Connection) : Response × Connection :=
  match readline newline 8192 (s.wire.unread.length + 1) (c.maxResponseBytes + 1) [] s with
  | (.error .silent,s) => (.waiting,s)
  | (.error (.broken error),s) => (.raised (readFailed error),s)
  | (.error .closed,s) => (.raised connectionClosed,s)
  | (.ok raw,s) =>
    if raw = [] then (.raised connectionClosed,s)
    else if c.maxResponseBytes < raw.length then (.raised (responseTooLarge c.maxResponseBytes),s)
    else (respond c raw,s)

-- _read_cancelable_response, of an event that is never set and a socket that never times out: the
-- buffer holds what is pending.
def readCancelableResponse : Nat → Connection → Response × Connection
  | 0,s => (.waiting,s)
  | steps+1,s =>
    match Lines.nextLine newline s.buffer with
    | some (segment,rest) =>
      let raw := segment ++ [newline]
      let s := {s with buffer := rest}
      if c.maxResponseBytes < raw.length then (.raised (responseTooLarge c.maxResponseBytes),s) else (respond c raw,s)
    | none =>
      if c.maxResponseBytes < s.buffer.length then (.raised (responseTooLarge c.maxResponseBytes),s)
      else match s.wire.recv (min (64 * 1024) (c.maxResponseBytes + 1 - s.buffer.length)) with
        | (.ok chunk,wire) => readCancelableResponse steps ⟨s.buffer ++ chunk,wire⟩
        | (.error .silent,wire) => (.waiting,{s with wire := wire})
        | (.error (.broken error),wire) => (.raised (readFailed error),{s with wire := wire})
        | (.error .closed,wire) =>
          if s.buffer = [] then (.raised connectionClosed,{s with wire := wire}) else (respond c s.buffer,⟨[],wire⟩)

def readCancelable (s : Connection) : Response × Connection := readCancelableResponse c (s.wire.unread.length + 1) s

-- A generator: not begun, suspended at a yield, or finished.
inductive Generator where
  | created (s : Connection)
  | suspended (s : Connection)
  | finished

-- What next() comes back with; it does not where the daemon says nothing more.
inductive Reply where
  | yields (event : Value)
  | raises (error : Raised)
  | stops
  | waits

variable (read : Connection → Response × Connection)

def nextEvent (s : Connection) : Reply × Generator :=
  match read s with
  | (.waiting,_) => (.waits,.suspended s)
  | (.raised error,_) => (.raises error,.finished)
  | (.answer event,s) =>
    match raiseDaemonError c event with
    | .error error => (.raises error,.finished)
    | .ok _ => (.yields event,.suspended s)

def next : Generator → Reply × Generator
  | .finished => (.stops,.finished)
  | .suspended s => nextEvent c read s
  | .created s =>
    match read s with
    | (.waiting,_) => (.waits,.created s)
    | (.raised error,_) => (.raises error,.finished)
    | (.answer acknowledgement,s) =>
      match validateSubscribeAcknowledgement c acknowledgement,c.onReady with
      | .error error,_ => (.raises error,.finished)
      | .ok _,some error => (.raises error,.finished)
      | .ok _,none => nextEvent c read s

-- The replies to the first calls.
def replies : Nat → Generator → List Reply
  | 0,_ => []
  | calls+1,g => (next c read g).1 :: replies calls (next c read g).2

end Client

def subscribe (c : SidecarClient) (wire : Wire UInt8 Text) (calls : Nat) : List Reply :=
  replies c (readResponse c) calls (.created ⟨[],wire⟩)

def subscribeCancelable (c : SidecarClient) (wire : Wire UInt8 Text) (calls : Nat) : List Reply :=
  replies c (readCancelable c) calls (.created ⟨[],wire⟩)

variable {c : SidecarClient} {s t : Connection} {out other : Response × Connection} {g h : Generator}

-- What is made of a line of the stream.
def judged (c : SidecarClient) : Except (Ending Text) (Bytes × Bytes) → Response
  | .error .silent => .waiting
  | .error (.broken error) => .raised (readFailed error)
  | .error .closed => .raised connectionClosed
  | .ok (raw,_) =>
    if raw = [] then .raised connectionClosed
    else if c.maxResponseBytes < raw.length then .raised (responseTooLarge c.maxResponseBytes)
    else respond c raw

-- A reader answers for the stream alone, however it has come in and however much is buffered.
structure Meets (c : SidecarClient) (s : Connection) (out : Response × Connection) : Prop where
  same : out.1 = judged c (lineOf newline (c.maxResponseBytes + 1) s.stream s.wire.ending)
  ending : out.2.wire.ending = s.wire.ending
  left : ∀ value, out.1 = .answer value →
    ∃ line, lineOf newline (c.maxResponseBytes + 1) s.stream s.wire.ending = .ok line ∧ out.2.stream = line.2

theorem readResponse_meets (c : SidecarClient) (s : Connection) : Meets c s (readResponse c s) := by
  obtain ⟨same,ending,left⟩ := @readline_exact _ _ _ newline 8192 (s.wire.unread.length + 1) (c.maxResponseBytes + 1) [] s
    (Nat.lt_succ_self _)
  unfold readResponse
  generalize readline newline 8192 (s.wire.unread.length + 1) (c.maxResponseBytes + 1) [] s = out at *
  obtain ⟨line,after⟩ := out
  cases found : lineOf newline (c.maxResponseBytes + 1) s.stream s.wire.ending with
  | error e =>
    rw [found] at same
    cases same
    cases e <;> exact ⟨by rw [found]; rfl,ending,fun _ answered => nomatch answered⟩
  | ok pair =>
    rw [found] at same left
    cases same
    have rest := left _ rfl
    simp only [List.nil_append] at rest ⊢
    refine ⟨?_,?_,?_⟩
    · rw [found,judged]
      split
      · rfl
      · split <;> rfl
    · split
      · exact ending
      · split <;> exact ending
    · intro value _
      refine ⟨pair,found,?_⟩
      split
      · exact rest
      · split <;> exact rest

theorem judged_large (large : c.maxResponseBytes < raw.length) (rest : Bytes) :
    judged c (.ok (raw,rest)) = .raised (responseTooLarge c.maxResponseBytes) := by
  rw [judged,if_neg (by rintro rfl; exact absurd large (Nat.not_lt_zero _)),if_pos large]

theorem judged_fits (some' : raw ≠ []) (fits : ¬ c.maxResponseBytes < raw.length) (rest : Bytes) :
    judged c (.ok (raw,rest)) = respond c raw := by rw [judged,if_neg some',if_neg fits]

theorem meets_raised (same : judged c (lineOf newline (c.maxResponseBytes + 1) s.stream s.wire.ending) = .raised error)
    (ending : after.wire.ending = s.wire.ending) : Meets c s (.raised error,after) :=
  ⟨same.symm,ending,fun _ answered => nomatch answered⟩

theorem meets_large (found : lineOf newline (c.maxResponseBytes + 1) s.stream s.wire.ending = .ok (raw,rest))
    (large : c.maxResponseBytes < raw.length) (ending : after.wire.ending = s.wire.ending) :
    Meets c s (.raised (responseTooLarge c.maxResponseBytes),after) :=
  meets_raised (by rw [found]; exact judged_large large rest) ending

theorem full_large (full : c.maxResponseBytes < front.length) (clean : newline ∉ front) (stream : s.stream = front ++ rest)
    (ending : after.wire.ending = s.wire.ending) : Meets c s (.raised (responseTooLarge c.maxResponseBytes),after) := by
  have found := lineOf_full (Nat.succ_le_of_lt full) (fun inside => clean (List.mem_of_mem_take inside)) rest s.wire.ending
  rw [← stream] at found
  exact meets_large found (by rw [List.length_take]; omega) ending

theorem readCancelableResponse_meets (c : SidecarClient) (steps : Nat) (s : Connection) (enough : s.wire.unread.length < steps) :
    Meets c s (readCancelableResponse c steps s) := by
  induction steps generalizing s with
  | zero => omega
  | succ steps ih =>
    rw [readCancelableResponse]
    cases next : Lines.nextLine newline s.buffer with
    | some found =>
      obtain ⟨segment,rest⟩ := found
      obtain ⟨clean,whole⟩ := Lines.nextLine_some next
      have stream : s.stream = segment ++ newline :: (rest ++ s.wire.unread) := by
        rw [Reader.stream,whole,List.append_assoc]; rfl
      have length : (segment ++ [newline]).length = segment.length + 1 := List.length_append
      simp only
      split
      · rename_i large
        by_cases within : segment.length < c.maxResponseBytes + 1
        · exact meets_large (by rw [stream]; exact lineOf_line clean within _ _) large rfl
        · exact full_large (by omega) clean stream rfl
      · rename_i fits
        have found := lineOf_line clean (show segment.length < c.maxResponseBytes + 1 by omega) (rest ++ s.wire.unread)
          s.wire.ending
        rw [← stream] at found
        exact ⟨by rw [found,judged_fits (by simp) fits],rfl,fun _ _ => ⟨_,found,rfl⟩⟩
    | none =>
      have clean := Lines.nextLine_none next
      simp only
      split
      · rename_i large
        exact full_large large clean rfl rfl
      · rename_i short
        by_cases none' : s.wire.unread = []
        · have found := lineOf_last clean (show s.buffer.length < c.maxResponseBytes + 1 by omega) s.wire.ending
          have stream : s.stream = s.buffer := by rw [Reader.stream,none',List.append_nil]
          rw [← stream] at found
          rw [recv_none none']
          cases ending : s.wire.ending with
          | silent =>
            rw [ending] at found
            refine ⟨by rw [ending,found]; rfl,rfl,fun _ answered => ?_⟩
            cases answered
          | broken error =>
            rw [ending] at found
            exact meets_raised (by rw [ending,found]; rfl) rfl
          | closed =>
            rw [ending] at found
            simp only
            split
            · rename_i empty
              exact meets_raised (by rw [ending,found,stream,empty]; rfl) rfl
            · rename_i some'
              refine ⟨?_,rfl,fun _ _ => ⟨(s.stream,[]),by rw [ending]; exact found,none'⟩⟩
              rw [ending,found,stream,judged_fits some' short]
        · obtain ⟨chunk,later,nonempty,cut,received⟩ := recv_some none'
            (min (64 * 1024) (c.maxResponseBytes + 1 - s.buffer.length))
          have fewer : later.length < steps := by
            have := List.length_pos_iff.mpr nonempty
            rw [cut,List.length_append] at enough
            omega
          obtain ⟨same,ending,left⟩ := ih ⟨s.buffer ++ chunk,{s.wire with unread := later}⟩ fewer
          have stream : (⟨s.buffer ++ chunk,{s.wire with unread := later}⟩ : Connection).stream = s.stream := by
            rw [Reader.stream,Reader.stream,cut,List.append_assoc]
          rw [stream] at same left
          rw [received]
          exact ⟨same,ending,left⟩

theorem readCancelable_meets (c : SidecarClient) (s : Connection) : Meets c s (readCancelable c s) :=
  readCancelableResponse_meets c _ s (Nat.lt_succ_self _)

theorem meets_alike (one : Meets c s out) (two : Meets c t other) (stream : s.stream = t.stream)
    (ending : s.wire.ending = t.wire.ending) : out.1 = other.1 ∧ out.2.wire.ending = other.2.wire.ending ∧
      ∀ value, out.1 = .answer value → out.2.stream = other.2.stream := by
  have same : out.1 = other.1 := by rw [one.same,two.same,stream,ending]
  refine ⟨same,by rw [one.ending,two.ending,ending],fun value answered => ?_⟩
  obtain ⟨line,found,left⟩ := one.left value answered
  obtain ⟨line',found',left'⟩ := two.left value (same ▸ answered)
  rw [stream,ending,found'] at found
  cases found
  rw [left,left']

-- Two generators at the same point of the same stream.
inductive Alike : Generator → Generator → Prop where
  | created {s t : Connection} (stream : s.stream = t.stream) (ending : s.wire.ending = t.wire.ending) :
    Alike (.created s) (.created t)
  | suspended {s t : Connection} (stream : s.stream = t.stream) (ending : s.wire.ending = t.wire.ending) :
    Alike (.suspended s) (.suspended t)
  | finished : Alike .finished .finished

theorem nextEvent_alike (stream : s.stream = t.stream) (ending : s.wire.ending = t.wire.ending) :
    (nextEvent c (readResponse c) s).1 = (nextEvent c (readCancelable c) t).1 ∧
      Alike (nextEvent c (readResponse c) s).2 (nextEvent c (readCancelable c) t).2 := by
  obtain ⟨same,ends,left⟩ := meets_alike (readResponse_meets c s) (readCancelable_meets c t) stream ending
  unfold nextEvent
  generalize readResponse c s = out at *
  generalize readCancelable c t = other at *
  obtain ⟨response,after⟩ := out
  obtain ⟨response',after'⟩ := other
  cases same
  cases response with
  | waiting => exact ⟨rfl,.suspended stream ending⟩
  | raised error => exact ⟨rfl,.finished⟩
  | answer event =>
    simp only
    cases raiseDaemonError c event with
    | error error => exact ⟨rfl,.finished⟩
    | ok _ => exact ⟨rfl,.suspended (left event rfl) ends⟩

theorem next_alike (alike : Alike g h) : (next c (readResponse c) g).1 = (next c (readCancelable c) h).1 ∧
    Alike (next c (readResponse c) g).2 (next c (readCancelable c) h).2 := by
  cases alike with
  | finished => exact ⟨rfl,.finished⟩
  | suspended stream ending => exact nextEvent_alike stream ending
  | created stream ending =>
    rename_i s t
    obtain ⟨same,ends,left⟩ := meets_alike (readResponse_meets c s) (readCancelable_meets c t) stream ending
    simp only [next]
    generalize readResponse c s = out at *
    generalize readCancelable c t = other at *
    obtain ⟨response,after⟩ := out
    obtain ⟨response',after'⟩ := other
    cases same
    cases response with
    | waiting => exact ⟨rfl,.created stream ending⟩
    | raised error => exact ⟨rfl,.finished⟩
    | answer acknowledgement =>
      simp only
      cases validateSubscribeAcknowledgement c acknowledgement with
      | error error => exact ⟨rfl,.finished⟩
      | ok _ =>
        cases c.onReady with
        | some error => exact ⟨rfl,.finished⟩
        | none => exact nextEvent_alike (left acknowledgement rfl) ends

theorem replies_alike (alike : Alike g h) (calls : Nat) :
    replies c (readResponse c) calls g = replies c (readCancelable c) calls h := by
  induction calls generalizing g h with
  | zero => rfl
  | succ calls ih =>
    obtain ⟨same,alike⟩ := next_alike alike
    rw [replies,replies,same,ih alike]

-- Every call of next comes back alike from both generators, whatever the daemon sends, however it
-- ends, and however the two connections cut it.
theorem subscribe_readers_agree (c : SidecarClient) (sent : Bytes) (ending : Ending Text) (ready ready' : Nat → Nat)
    (calls : Nat) : subscribe c ⟨sent,ready,ending⟩ calls = subscribeCancelable c ⟨sent,ready',ending⟩ calls := by
  have alike : Alike (.created ⟨[],⟨sent,ready,ending⟩⟩) (.created ⟨[],⟨sent,ready',ending⟩⟩) := .created rfl rfl
  exact replies_alike alike calls

end AgentSideCar.Daemon.Subscribe
