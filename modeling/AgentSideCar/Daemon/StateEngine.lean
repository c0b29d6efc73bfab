import AgentSideCar.Library.Dict
import AgentSideCar.Library.LineStarts
import AgentSideCar.Library.PlainLoads
import AgentSideCar.Library.Utf8
import AgentSideCar.Remote.Cluster
import AgentSideCar.Send.Render
import AgentSideCar.Tail.Follower
import Mathlib.Algebra.Order.Field.Basic

namespace AgentSideCar.Inference
open Loads (Text Value Plain LoadsError str)
open Cluster (field strip isMapping)
open Send (truthy)

abbrev Bytes := List UInt8

inductive Status where
  | working
  | waiting
  | idle
  | dead
  deriving DecidableEq

inductive Kind where
  | toolUse
  | toolResult
  | thinking
  | user
  | assistant
  deriving DecidableEq

-- The interpreter's part: how it reads JSON, small letters, str of a value that is no text, and
-- floats. A float of a number is none where it is not finite, one of a text also where the text
-- is no number, and a date is none where it is not taken.
structure Interpreter (T : Type) where
  plain : Plain
  lower : Text → Text
  spoken : Value → Text
  ofInt : Int → Option T
  ofFloat : Int → Int → Option T
  parseFloat : Text → Option (Option T)
  fromisoformat : Text → Option T

section Records
variable {T : Type} [Field T] [LinearOrder T] (i : Interpreter T)

def Interpreter.str : Value → Text
  | .text value => value
  | value => i.spoken value

-- str(value or "")
def said (value : Option Value) : Text := (value.filter truthy).elim [] i.str

def epochSeconds (epoch : T) : T := if 100000000000 ≤ |epoch| then epoch / 1000 else epoch

def timestampEpoch : Value → Option T
  | .int value => (i.ofInt value).map epochSeconds
  | .float mantissa exponent => (i.ofFloat mantissa exponent).map epochSeconds
  | .text value =>
    let raw := strip value
    if raw = [] then none
    else match i.parseFloat raw with
      | some number => number.map epochSeconds
      | none => i.fromisoformat (if raw.getLast? = some 90 then raw.dropLast ++ str "+00:00" else raw)
  | _ => none

-- A field of what is no mapping is missing, as it is of an empty one.
def message (record : Value) : Value := (field record "message").getD .null

def recordTimestamp (record : Value) : Option T :=
  [field record "timestamp",field record "time",field record "createdAt",field record "updatedAt",
    field (message record) "timestamp"].findSome? fun value => value.bind (timestampEpoch i)

def identified : Value → Option Text
  | .null => none
  | value => if i.str value = [] then none else some (i.str value)

def toolIdentifier (item : Value) (result : Bool) : Text :=
  ((if result then ["tool_use_id","toolUseId","tool_call_id","toolCallId","id"]
    else ["id","tool_use_id","toolUseId","tool_call_id","toolCallId"]).findSome? fun key =>
      (field item key).bind (identified i)).getD []

def contentItems : Option Value → List Value
  | some (.text value) => [.dict [(str "type",.text (str "text")),(str "text",.text value)]]
  | some (.dict fields) => [.dict fields]
  | some (.list items) => items.filter isMapping
  | _ => []

structure TailState (T : Type) where
  lastKind : Option Kind
  activityAt : Option T
  unmatchedTools : Nat

-- The anonymous calls, the last one first.
structure Tally (T : Type) where
  unmatched : Dict Text Nat := .empty
  anonymous : List Nat := []
  lastKind : Option Kind := none
  activityAt : Option T := none
  ordinal : Nat := 0

def mark (kind : Kind) (timestamp : Option T) (s : Tally T) : Tally T :=
  {s with ordinal := s.ordinal + 1,lastKind := some kind,activityAt := timestamp}

def openTool (timestamp : Option T) (s : Tally T) (item : Value) : Tally T :=
  let s := mark .toolUse timestamp s
  let identifier := toolIdentifier i item false
  if identifier ≠ [] then {s with unmatched := s.unmatched.set identifier s.ordinal}
  else {s with anonymous := s.ordinal :: s.anonymous}

def closeTool (timestamp : Option T) (s : Tally T) (item : Value) : Tally T :=
  let identifier := toolIdentifier i item true
  mark .toolResult timestamp (if identifier ≠ [] then {s with unmatched := s.unmatched.erase identifier}
    else {s with anonymous := s.anonymous.tail})

def recordType (record : Value) : Text := i.lower (said i (field record "type"))

def role (record : Value) : Text :=
  i.lower ((((field record "role").filter truthy).or ((field (message record) "role").filter truthy)).elim (recordType i record) i.str)

def itemStep (role : Text) (timestamp : Option T) (s : Tally T) (item : Value) : Tally T :=
  let itemType := recordType i item
  if itemType = str "tool_use" ∨ itemType = str "tool_call" then openTool i timestamp s item
  else if itemType = str "tool_result" then closeTool i timestamp s item
  else if itemType = str "thinking" then mark .thinking timestamp s
  else if itemType = str "text" ∧ strip (said i (field item "text")) ≠ [] then
    if role = str "user" then mark .user timestamp s
    else if role = str "assistant" then mark .assistant timestamp s
    else s
  else s

def items (record : Value) : List Value :=
  if recordType i record ∈ ["tool_use","tool_call","tool_result"].map str then [record]
  else contentItems ((field (message record) "content").or (field record "content"))

def toolCalls (record : Value) : List Value :=
  match field (message record) "tool_calls" with
  | some (.list calls) => calls.filter isMapping
  | _ => []

def bareStep (timestamp : Option T) (s : Tally T) (record : Value) : Tally T :=
  if items i record = [] then
    if recordType i record ∈ ["thinking","tool_call_started"].map str then mark .thinking timestamp s
    else if role i record = str "tool" then mark .toolResult timestamp s
    else s
  else s

def recordStep (s : Tally T) (record : Value) : Tally T :=
  let timestamp := recordTimestamp i record
  let s := (items i record).foldl (itemStep i (role i record) timestamp) s
  let s := (toolCalls record).foldl (openTool i timestamp) s
  bareStep i timestamp s record

def tailState (records : List Value) : TailState T :=
  let s := records.foldl (recordStep i) {}
  ⟨s.lastKind,s.activityAt,s.unmatched.size + s.anonymous.length⟩

end Records

section Files
variable {T : Type} (i : Interpreter T)

def newline : UInt8 := 10
def carriageReturn : UInt8 := 13

def lineBreak (b : UInt8) : Bool := b = newline || b = carriageReturn

def splitlines (data : Bytes) : List Bytes := Words.lines lineBreak carriageReturn newline false [] data

def decodedLine (raw : Bytes) : Text := Utf8.decode [65533] raw

-- A JSONDecodeError passes the line over; what else json.loads raises goes out.
def jsonlRecords (maxRecords : Option Nat) : List Value → List Bytes → Except LoadsError (List Value)
  | records,[] => .ok records
  | records,raw :: rest =>
    if raw.all Tail.isSpace then jsonlRecords maxRecords records rest
    else match i.plain.loads (decodedLine raw) with
      | .error .malformed => jsonlRecords maxRecords records rest
      | .error e => .error e
      | .ok (.dict fields) =>
        if maxRecords.any (· ≤ records.length + 1) then .ok (records ++ [.dict fields])
        else jsonlRecords maxRecords (records ++ [.dict fields]) rest
      | .ok _ => jsonlRecords maxRecords records rest

-- records[-max_records:]
def lastOf (maxRecords : Option Nat) (records : List Value) : List Value :=
  match maxRecords with
  | none => records
  | some most => if most = 0 then records else records.drop (records.length - most)

-- No content is a file that cannot be read.
def readJsonlTail (look : Option Bytes) (maxBytes : Nat) (maxRecords : Option Nat) : Except LoadsError (List Value) :=
  if maxBytes = 0 then .ok []
  else match look with
    | none => .ok []
    | some content =>
      match LineStarts.tail newline maxBytes content with
      | none => .ok []
      | some data => (jsonlRecords i none [] (splitlines data)).map (lastOf maxRecords)

end Files

section Engine
variable {T : Type} [Field T] [LinearOrder T] (i : Interpreter T)

structure StateEngine (T : Type) [Field T] [LinearOrder T] where
  freshSeconds : T
  idleSeconds : T
  tailBytes : Nat
  tailRecords : Nat
  fresh : 0 ≤ freshSeconds
  ordered : freshSeconds ≤ idleSeconds
  bytes : 0 < tailBytes
  records : 0 < tailRecords

variable (e : StateEngine T)

def ageSeconds (updatedAt current : T) : T := max 0 (current - updatedAt)

def TailState.atWork (tail : TailState T) : Bool :=
  tail.lastKind = some .user || tail.lastKind = some .thinking || tail.lastKind = some .toolUse && decide (0 < tail.unmatchedTools)

def statusOf (tail : TailState T) (updatedAt current : T) : Status :=
  let age := ageSeconds (tail.activityAt.getD updatedAt) current
  if e.idleSeconds < age then .idle
  else if age ≤ e.freshSeconds ∧ tail.atWork then .working
  else .waiting

def loadTail (content : Bytes) : Except LoadsError (TailState T) :=
  (readJsonlTail i (some content) e.tailBytes (some e.tailRecords)).map (tailState i)

-- The adapter's verdict, if it gives one; the transcript, if there is such a file; and what the
-- cache keeps under its signature.
def inferStatus (verdict : Option Status) (transcript : Option Bytes) (cached : Option (TailState T)) (updatedAt current : T)
    (terminalActive : Bool) : Except LoadsError Status :=
  match verdict,transcript with
  | some status,_ => .ok status
  | none,none => .ok .dead
  | none,some content => do
    let tail ← cached.elim (loadTail i e content) .ok
    let status := statusOf e tail updatedAt current
    if status ≠ .idle ∧ ageSeconds updatedAt current ≤ e.idleSeconds ∧ terminalActive then return .working
    else return status

-- The scan marks a session dead whose status raises.
def scanned : Except LoadsError Status → Status
  | .ok status => status
  | .error _ => .dead

end Engine

section Moving
variable {T : Type} {s t u : Tally T} {timestamp : Option T}

-- The kind and the time a state shows last.
def view (s : Tally T) : Option Kind × Option T := (s.lastKind,s.activityAt)

def shown (marked : Option (Kind × Option T)) (before : Option Kind × Option T) : Option Kind × Option T :=
  marked.elim before fun marked => (some marked.1,marked.2)

-- A call that is marked last has no result yet.
def Pending (s : Tally T) : Prop := s.lastKind = some .toolUse → 0 < s.unmatched.size + s.anonymous.length

-- A step shows what it marks, or what was shown before, and leaves no call without a trace.
structure Moves (marked : Option (Kind × Option T)) (s t : Tally T) : Prop where
  shows : view t = shown marked (view s)
  pending : Pending s → Pending t

theorem Moves.refl (s : Tally T) : Moves none s s := ⟨rfl,id⟩

theorem Moves.trans (one : Moves first s t) (two : Moves second t u) : Moves (second.or first) s u := by
  refine ⟨?_,fun pending => two.pending (one.pending pending)⟩
  rw [two.shows,one.shows]
  cases second <;> rfl

theorem mark_moves (kind : Kind) (other : kind ≠ .toolUse) (s t : Tally T) : Moves (some (kind,timestamp)) s (mark kind timestamp t) :=
  ⟨rfl,fun _ same => absurd (Option.some.inj same) other⟩

theorem foldl_moves {α : Type} {step : Tally T → α → Tally T} {marked : α → Option (Kind × Option T)}
    (moves : ∀ s x, Moves (marked x) s (step s x)) (xs : List α) (s : Tally T) :
    Moves (xs.filterMap marked).getLast? s (xs.foldl step s) := by
  induction xs generalizing s with
  | nil => exact Moves.refl s
  | cons x rest ih =>
    have whole := (moves s x).trans (ih (step s x))
    rw [List.foldl_cons,List.filterMap_cons]
    cases first : marked x with
    | none =>
      rw [first] at whole
      simpa using whole
    | some m =>
      rw [first] at whole
      simpa [List.getLast?_cons,Option.or_some] using whole

theorem size_set (d : Dict Text Nat) (key : Text) (n : Nat) : 0 < (d.set key n).size := by
  have found : (d.set key n).get key = some n := by rw [Dict.get_set,if_pos rfl]
  exact List.length_pos_of_mem ((Dict.get_iff _).mp found)

end Moving

section Marking
variable {T : Type} (i : Interpreter T) (timestamp : Option T)

-- What an item marks, and what a record marks beside its items and calls.
def itemMark (role : Text) (item : Value) : Option Kind :=
  let itemType := recordType i item
  if itemType = str "tool_use" ∨ itemType = str "tool_call" then some .toolUse
  else if itemType = str "tool_result" then some .toolResult
  else if itemType = str "thinking" then some .thinking
  else if itemType = str "text" ∧ strip (said i (field item "text")) ≠ [] then
    if role = str "user" then some .user else if role = str "assistant" then some .assistant else none
  else none

def bareMark (record : Value) : Option Kind :=
  if items i record = [] then
    if recordType i record ∈ ["thinking","tool_call_started"].map str then some .thinking
    else if role i record = str "tool" then some .toolResult
    else none
  else none

def marks (record : Value) : List Kind :=
  (items i record).filterMap (itemMark i (role i record)) ++ (toolCalls record).map (fun _ => .toolUse) ++ (bareMark i record).toList

theorem openTool_moves (s : Tally T) (item : Value) : Moves (some (.toolUse,timestamp)) s (openTool i timestamp s item) := by
  unfold openTool
  by_cases named : toolIdentifier i item false ≠ []
  · rw [if_pos named]
    exact ⟨rfl,fun _ _ => Nat.lt_of_lt_of_le (size_set _ _ _) (Nat.le_add_right _ _)⟩
  · rw [if_neg named]
    exact ⟨rfl,fun _ _ => Nat.lt_of_lt_of_le (Nat.succ_pos _) (Nat.le_add_left _ _)⟩

theorem itemStep_moves (role : Text) (s : Tally T) (item : Value) :
    Moves ((itemMark i role item).map (·,timestamp)) s (itemStep i role timestamp s item) := by
  unfold itemStep itemMark
  dsimp only
  by_cases call : recordType i item = str "tool_use" ∨ recordType i item = str "tool_call"
  · rw [if_pos call,if_pos call]
    exact openTool_moves i timestamp s item
  · rw [if_neg call,if_neg call]
    by_cases result : recordType i item = str "tool_result"
    · rw [if_pos result,if_pos result]
      exact mark_moves _ (by decide) _ _
    · rw [if_neg result,if_neg result]
      by_cases thinking : recordType i item = str "thinking"
      · rw [if_pos thinking,if_pos thinking]
        exact mark_moves _ (by decide) _ _
      · rw [if_neg thinking,if_neg thinking]
        split
        · by_cases user : role = str "user"
          · rw [if_pos user,if_pos user]
            exact mark_moves _ (by decide) _ _
          · rw [if_neg user,if_neg user]
            by_cases assistant : role = str "assistant"
            · rw [if_pos assistant,if_pos assistant]
              exact mark_moves _ (by decide) _ _
            · rw [if_neg assistant,if_neg assistant]
              exact Moves.refl s
        · exact Moves.refl s

theorem bareStep_moves (s : Tally T) (record : Value) :
    Moves ((bareMark i record).map (·,timestamp)) s (bareStep i timestamp s record) := by
  unfold bareStep bareMark
  by_cases bare : items i record = []
  · rw [if_pos bare,if_pos bare]
    by_cases thinking : recordType i record ∈ ["thinking","tool_call_started"].map str
    · rw [if_pos thinking,if_pos thinking]
      exact mark_moves _ (by decide) _ _
    · rw [if_neg thinking,if_neg thinking]
      by_cases tool : role i record = str "tool"
      · rw [if_pos tool,if_pos tool]
        exact mark_moves _ (by decide) _ _
      · rw [if_neg tool,if_neg tool]
        exact Moves.refl s
  · rw [if_neg bare,if_neg bare]
    exact Moves.refl s

end Marking

section Folding
variable {T : Type} [Field T] [LinearOrder T] (i : Interpreter T)

-- What a record marks last, and when: none where it is no activity.
def activity (record : Value) : Option (Kind × Option T) :=
  (marks i record).getLast?.map fun kind => (kind,recordTimestamp i record)

variable {i}

theorem recordStep_moves (s : Tally T) (record : Value) : Moves (activity i record) s (recordStep i s record) := by
  have byItems := foldl_moves (itemStep_moves i (recordTimestamp i record) (role i record)) (items i record) s
  have byCalls := byItems.trans (foldl_moves (openTool_moves i (recordTimestamp i record)) (toolCalls record) _)
  have whole := byCalls.trans (bareStep_moves i (recordTimestamp i record) _ record)
  have same : activity i record = ((bareMark i record).map (·,recordTimestamp i record)).or
      (((toolCalls record).filterMap fun _ => some (Kind.toolUse,recordTimestamp i record)).getLast?.or
        ((items i record).filterMap fun item => (itemMark i (role i record) item).map (·,recordTimestamp i record)).getLast?) := by
    have items (timestamp : Option T) : ((items i record).filterMap fun item => (itemMark i (role i record) item).map (·,timestamp)) =
        ((items i record).filterMap (itemMark i (role i record))).map (·,timestamp) := List.map_filterMap.symm
    have calls (timestamp : Option T) : ((toolCalls record).filterMap fun _ => some (Kind.toolUse,timestamp)) =
        ((toolCalls record).map fun _ => Kind.toolUse).map (·,timestamp) := by
      rw [List.map_map]
      exact congrFun List.filterMap_eq_map _
    rw [activity,marks,items,calls]
    simp only [List.getLast?_append,List.getLast?_map,Option.map_or]
    cases bareMark i record <;> rfl
  rw [same]
  exact whole

theorem tally_moves (records : List Value) : Moves (records.filterMap (activity i)).getLast? {} (records.foldl (recordStep i) {}) :=
  foldl_moves recordStep_moves records {}

-- What a list of records comes to is read off its last activity.
def lastActivity (i : Interpreter T) (records : List Value) : Option Kind × Option T :=
  shown (records.filterMap (activity i)).getLast? (none,none)

def atWork (kind : Option Kind) : Bool := kind = some .user || kind = some .thinking || kind = some .toolUse

def statusBy (e : StateEngine T) (last : Option Kind × Option T) (updatedAt current : T) : Status :=
  let age := ageSeconds (last.2.getD updatedAt) current
  if e.idleSeconds < age then .idle
  else if age ≤ e.freshSeconds ∧ atWork last.1 then .working
  else .waiting

theorem statusOf_records (e : StateEngine T) (records : List Value) (updatedAt current : T) :
    statusOf e (tailState i records) updatedAt current = statusBy e (lastActivity i records) updatedAt current := by
  have moves := tally_moves (i := i) records
  have shows : view (records.foldl (recordStep i) {}) = lastActivity i records := moves.shows
  have pending : Pending (records.foldl (recordStep i) {}) := moves.pending nofun
  rw [← shows]
  have work : (tailState i records).atWork = atWork (records.foldl (recordStep i) {}).lastKind := by
    unfold TailState.atWork atWork
    by_cases call : (records.foldl (recordStep i) {}).lastKind = some .toolUse
    · have traced := pending call
      simp [tailState,call,traced]
    · simp only [tailState,call]
      rfl
  unfold statusOf statusBy
  rw [work]
  rfl

theorem statusOf_alive (e : StateEngine T) (tail : TailState T) (updatedAt current : T) : statusOf e tail updatedAt current ≠ .dead := by
  unfold statusOf
  dsimp only
  split
  · exact nofun
  · split <;> exact nofun

end Folding

end AgentSideCar.Inference
