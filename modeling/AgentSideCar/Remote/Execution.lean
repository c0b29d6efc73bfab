import AgentSideCar.Library.Dumps
import AgentSideCar.Library.Program
import AgentSideCar.Remote.Aggregate
import AgentSideCar.Remote.Frames
import Mathlib.Data.List.Infix
import Mathlib.Data.List.Lex
import Mathlib.Data.List.Sort

namespace AgentSideCar.Execution
open Loads (Text str Value Hooks)
open Dumps (Object Writer Numeral Exact Distinct Holds objects entries)
open Wrapper (Bytes JSONLimits JSONError newline carriage)
open Remote (FailureCode)

def maxArtifact : Nat := 4194304
def maxOutput : Nat := 8388608
def maxError : Nat := 65536
def maxRead : Nat := 65536
def maxRowBytes : Nat := 262144
def maxRows : Nat := 16384
def maxJsonDepth : Nat := 32
def maxJsonItems : Nat := maxRows * 24 + 64
def maxJsonExtraItems : Nat := 8192
def maxJsonStringBytes : Nat := 262144
def maxSessionTimestamp : Int := 32503680000

-- An interpreter's own limits: on nesting, where it reads and where it writes, and on the digits of an integer.
structure Limits where
  reads : Nat
  writes : Nat
  digits : Option Nat

def Limits.refuses (l : Limits) (digits : Nat) : Bool := l.digits.any (· < digits)

def Limits.hooks (l : Limits) : Hooks := ⟨l.reads,fun whole => if l.refuses whole.length then some .integer else none⟩

-- The floats of both interpreters: how a literal is read, what repr writes for one that is finite,
-- and whether one is no time. What repr writes is read as the same float.
structure Floats (F : Type) where
  read : Int → Int → F
  repr : F → Option Text
  outside : F → Bool
  exact : ∀ x t, repr x = some t → ∃ mantissa exponent, Numeral t (.float mantissa exponent) ∧ read mantissa exponent = x

def Limits.writer (l : Limits) (f : Floats F) : Writer F where
  depth := l.writes
  integer := fun n => if l.refuses (Digits.digits n.natAbs).length then none else some (Dumps.decimal n)
  float := f.repr

-- What standard output writes of a character, by its codec and what that has for an error handler,
-- and none where it raises. A codec of a locale writes ASCII as it is, and no character is beyond the
-- last code point.
structure Stdout where
  char : Nat → Option Bytes
  ascii : ∀ c < 128, char c = some [c.toUInt8]
  points : ∀ c bytes, char c = some bytes → c < 0x110000

def Stdout.encode (s : Stdout) : Text → Option Bytes
  | [] => some []
  | c :: rest => (s.char c).bind fun bytes => (s.encode rest).map (bytes ++ ·)

-- It writes a character as UTF-8 does, or raises.
def Stdout.Plain (s : Stdout) (c : Nat) : Prop := ∀ bytes, s.char c = some bytes → Utf8.encodeChar c = some bytes

-- The remote interpreter. It takes float of the fourth argument to be a number of seconds or not.
structure Host (F : Type) where
  limits : Limits
  stdout : Stdout
  seconds : Text → Bool
  floats : Floats F

inductive Stream where
  | stdout
  | stderr
  deriving DecidableEq

-- A pipe of the child: what was taken of it, what the child prints to it from there on.
structure Pipe where
  taken : Bytes
  left : Bytes
  closed : Bool

def Pipe.limit : Stream → Nat
  | .stdout => maxOutput
  | .stderr => maxError

-- A read gives some of what is there, and the end of file when nothing is. It does not fail.
def Pipe.read (limit size : Nat) (p : Pipe) : Pipe × Bool :=
  let available := limit - p.taken.length
  let chunk := p.left.take (min (size + 1) (max 1 (min maxRead (available + 1))))
  if chunk = [] then ({p with closed := true},false)
  else ({p with taken := p.taken ++ chunk.take available,left := p.left.drop chunk.length},available < chunk.length)

inductive Event where
  | read (stream : Stream) (size : Nat)
  | deadline

structure Ran where
  output : Bytes
  overflow : Option Stream
  timedOut : Bool

def boundedChild (out err : Pipe) : List Event → Ran
  | [] => ⟨out.taken,none,!(out.closed && err.closed)⟩
  | .deadline :: _ => ⟨out.taken,none,!(out.closed && err.closed)⟩
  | .read .stdout size :: rest =>
    if out.closed then boundedChild out err rest
    else match out.read maxOutput size with
      | (out,true) => ⟨out.taken,some .stdout,false⟩
      | (out,false) => boundedChild out err rest
  | .read .stderr size :: rest =>
    if err.closed then boundedChild out err rest
    else match err.read maxError size with
      | (_,true) => ⟨out.taken,some .stderr,false⟩
      | (err,false) => boundedChild out err rest

-- A child: what it prints, how that is read, and how it ends. Where it cannot be had the
-- bootstrap raises.
structure Child where
  printed : Bytes
  complaints : Bytes
  events : List Event
  returncode : Int
  raises : Bool

def Child.ran (child : Child) : Ran := boundedChild ⟨[],child.printed,false⟩ ⟨[],child.complaints,false⟩ child.events

section Bootstrap
variable {F : Type} (host : Host F)

def emit (fields : List (Text × Object F)) : Option Bytes :=
  (Dumps.dumps (host.limits.writer host.floats) 0 (.dict fields)).bind fun text => (host.stdout.encode text).map (· ++ [newline])

def refusal (code : String) : List (Text × Object F) := [(str "ok",.bool false),(str "code",.text (str code))]

def response (rows : List (Object F)) : List (Text × Object F) := [(str "ok",.bool true),(str "rows",.list rows)]

def allowedChildArgs (args : List Text) : Bool :=
  args ∈ [["list","--json","--all"].map str,["status","--json"].map str,["cluster","--json","--all"].map str] ||
    args.length = 4 &&
      args.take 3 ∈ [["list","--json","--recent-seconds"].map str,["cluster","--json","--recent-seconds"].map str] &&
        (args[3]?).any host.seconds

-- A line without the newline at its end.
def chomp (raw : Bytes) : Bytes := if raw.getLast? = some newline then raw.dropLast else raw

def unframed (line : Bytes) : Bool := line = [] || newline ∈ line || line ≠ Wrapper.strip line

-- Where the rows cannot be written, the outermost handler answers.
def answer (output : Bytes) : Option Bytes :=
  if output = [] ∨ carriage ∈ output then emit host (refusal "protocol")
  else if unframed (chomp output) then emit host (refusal "protocol")
  else match Loads.loadsBytes host.limits.hooks (chomp output) with
    | .ok (.list rows) => (emit host (response (objects host.floats.read rows))).or (emit host (refusal "remote"))
    | .error .recursion => emit host (refusal "resource_limit")
    | _ => emit host (refusal "protocol")

def bootstrap (args : List Text) (artifact : Bytes) (child : Child) : Option Bytes :=
  if allowedChildArgs host args = false then emit host (refusal "protocol")
  else if artifact = [] ∨ maxArtifact < artifact.length then emit host (refusal "protocol")
  else if child.raises then emit host (refusal "remote")
  else if child.ran.timedOut then emit host (refusal "timeout")
  else match child.ran.overflow with
    | some .stdout => emit host (refusal "resource_limit")
    | some .stderr => emit host (refusal "protocol")
    | none => if child.returncode ≠ 0 then emit host (refusal "remote") else answer host child.ran.output

end Bootstrap

section Receiver
variable {F : Type} (limits : Limits) (f : Floats F)

def protocolLimits : JSONLimits := ⟨maxJsonDepth,maxJsonItems,maxJsonStringBytes,4096⟩

def oneLineJson (payload : Bytes) : Except JSONError Value :=
  if maxOutput < payload.length then .error .limit
  else if payload = [] ∨ carriage ∈ payload then .error .malformed
  else if unframed (chomp payload) then .error .malformed
  else Wrapper.parseJson limits.reads protocolLimits (chomp payload)

def failed : JSONError → FailureCode
  | .limit => .resourceLimit
  | .malformed => .protocol

def sessionKeys : List Text :=
  ["agent","session_id","project","transcript","updated_at","title","status","extra","parent_id"].map str

def statusValues : List Text := ["working","waiting","idle","dead"].map str

def sessionString (fields : List (Text × Value)) (key : String) (limit : Nat) (required : Bool) : Except FailureCode Unit :=
  match Wrapper.get fields key with
  | some (.text t) =>
    if required && t.isEmpty then .error .protocol
    else if t.any Wrapper.surrogate then .error .protocol
    else if limit < Wrapper.utf8Length t then .error .resourceLimit
    else .ok ()
  | _ => .error .protocol

def updatedAt : Option Value → Except FailureCode Unit
  | some (.int n) => if n < 0 ∨ maxSessionTimestamp < n then .error .resourceLimit else .ok ()
  | some (.float m e) =>
    if Wrapper.finite m e = false then .error .protocol else if f.outside (f.read m e) then .error .resourceLimit else .ok ()
  | _ => .error .protocol

def protocolJson (maxNodes : Nat) (value : Value) : Except FailureCode Unit :=
  match Wrapper.validateJson {protocolLimits with maxNodes := maxNodes} 0 1 value with
  | .ok _ => .ok ()
  | .error e => .error (failed e)

-- What json.dumps writes with sort_keys.
mutual
def sorted : Object F → Object F
  | .list items => .list (sortedItems items)
  | .dict fields => .dict ((sortedFields fields).insertionSort fun a b => a.1 ≤ b.1)
  | o => o

def sortedItems : List (Object F) → List (Object F)
  | [] => []
  | item :: items => sorted item :: sortedItems items

def sortedFields : List (Text × Object F) → List (Text × Object F)
  | [] => []
  | (key,item) :: fields => (key,sorted item) :: sortedFields fields
end

def rowKeys (fields : List (Text × Value)) : Except FailureCode Unit :=
  if Wrapper.keysAre fields sessionKeys then .ok () else .error .protocol

def statusValue : Option Value → Except FailureCode Unit
  | some (.text status) => if status ∈ statusValues then .ok () else .error .protocol
  | _ => .error .protocol

def extraObject : Option Value → Except FailureCode Unit
  | some (.dict extra) => protocolJson maxJsonExtraItems (.dict extra)
  | _ => .error .protocol

def parentId (fields : List (Text × Value)) : Except FailureCode Unit :=
  match Wrapper.get fields "parent_id" with
  | some .null => .ok ()
  | _ => sessionString fields "parent_id" 4096 false

-- A row that is nested too deep was refused before.
def encodedRow (fields : List (Text × Value)) : Except FailureCode Unit :=
  match Dumps.dumps ({limits with writes := maxJsonDepth + 1}.writer f) 0 (sorted (Dumps.object f.read (.dict fields))) with
  | some encoded => if maxRowBytes < Wrapper.utf8Length encoded then .error .resourceLimit else .ok ()
  | none => .error .protocol

def rowFields (fields : List (Text × Value)) : Except FailureCode Unit := do
  sessionString fields "agent" 256 true
  sessionString fields "session_id" 4096 true
  sessionString fields "project" 32768 false
  sessionString fields "transcript" 32768 false
  sessionString fields "title" 65536 false
  updatedAt f (Wrapper.get fields "updated_at")
  statusValue (Wrapper.get fields "status")
  extraObject (Wrapper.get fields "extra")
  parentId fields
  encodedRow limits f fields

def protocolRow : Value → Except FailureCode (List (Text × Value))
  | .dict fields => do
    rowKeys fields
    protocolJson maxJsonItems (.dict fields)
    rowFields limits f fields
    return fields
  | _ => .error .protocol

def assign (fields : List (Text × Object F)) (key : Text) (value : Object F) : List (Text × Object F) :=
  if key ∈ fields.map Prod.fst then fields.map fun field => if field.1 = key then (key,value) else field
  else fields ++ [(key,value)]

abbrev Row (F : Type) := List (Text × Object F)

def protocolRows (name : Text) : Value → Except FailureCode (List (Row F))
  | .list values => do
    if maxRows < values.length then throw .resourceLimit
    let rows ← values.mapM (protocolRow limits f)
    return rows.map fun fields => assign (entries f.read fields) (str "host") (.text name)
  | _ => .error .protocol

def remoteCode : Option Value → FailureCode
  | some (.text code) =>
    if code = str "timeout" then .timeout else if code = str "resource_limit" then .resourceLimit
    else if code = str "remote" then .remote else .protocol
  | _ => .protocol

def parseExecutionResponse (payload : Bytes) (name : Text) : Except FailureCode (List (Row F)) :=
  match oneLineJson limits payload with
  | .error e => .error (failed e)
  | .ok (.dict fields) =>
    match Wrapper.get fields "ok" with
    | some (.bool false) =>
      if Wrapper.keysAre fields (["ok","code"].map str) = false then .error .protocol else .error (remoteCode (Wrapper.get fields "code"))
    | some (.bool true) =>
      if Wrapper.keysAre fields (["ok","rows"].map str) = false then .error .protocol
      else match Wrapper.get fields "rows" with
        | some rows => protocolRows limits f name rows
        | none => .error .protocol
    | _ => .error .protocol
  | .ok _ => .error .protocol

end Receiver

def mentions (text : Text) (markers : List String) : Bool := markers.any fun marker => decide (str marker <:+: text)

-- By what ssh complains of, in lower case.
def failureCode (complaint : Text) (returncode : Int) : FailureCode :=
  if mentions complaint ["host key verification failed","remote host identification has changed","offending "] then .hostKey
  else if mentions complaint ["permission denied","authentication failed","no supported authentication methods"] then .auth
  else if mentions complaint ["timed out","operation timeout"] then .timeout
  else if mentions complaint ["no route to host","network is unreachable","connection refused","could not resolve hostname",
    "name or service not known","connection closed","connection reset"] then .unreachable
  else if returncode = 255 then .unreachable
  else .remote

inductive Command where
  | list (recent : Option Text)
  | status

def Command.arguments : Command → List Text
  | .list none => ["list","--json","--all"].map str
  | .list (some seconds) => ["list","--json","--recent-seconds"].map str ++ [seconds]
  | .status => ["status","--json"].map str

-- What becomes of the ssh command: it is not run, it is stopped, or it ends by itself.
inductive Delivery where
  -- the deadline has passed, or the probe reports why not
  | refused (code : FailureCode)
  | timeout
  | osError
  | overflow (stream : Stream)
  -- ssh, or the shell, ends otherwise than the bootstrap does
  | broken (returncode : {n : Int // n ≠ 0}) (complaint : Text)
  | ended (complaint : Text)

section Fleet
variable {F : Type}

def executeRemoteHost (host : Host F) (limits : Limits) (name : Text) (command : Command) (artifact : Bytes) (child : Child) :
    Delivery → Except FailureCode (List (Row F))
  | .refused code => .error code
  | .timeout => .error .timeout
  | .osError => .error .unreachable
  | .overflow .stdout => .error .resourceLimit
  | .overflow .stderr => .error .protocol
  | .broken returncode complaint => .error (failureCode complaint returncode.val)
  | .ended complaint =>
    match bootstrap host command.arguments artifact child with
    | some stdout => parseExecutionResponse limits host.floats stdout name
    | none => .error (failureCode complaint 1)

-- The rows a child prints.
def printedRows (f : Floats F) (printed : Bytes) : Option (List (Object F)) :=
  match Loads.parseBytes (chomp printed) with
  | some (.list rows) => some (objects f.read rows)
  | _ => none

def hosted (name : Text) (row : Row F) : Row F := row ++ [(str "host",.text name)]

-- Rows that are reported are all that the child printed, as they are and with their host.
def Exactly (f : Floats F) (name : Text) (printed : Bytes) (result : Except FailureCode (List (Row F))) : Prop :=
  ∀ rows, result = .ok rows → ∃ own : List (Row F), printedRows f printed = some (own.map .dict) ∧ rows = own.map (hosted name)

-- Standard output writes the characters of the rows as UTF-8 does, where it writes them.
def Writable (host : Host F) (printed : Bytes) : Prop :=
  ∀ rows, printedRows host.floats printed = some rows → ∀ row ∈ rows, ∀ c, Holds c row → host.stdout.Plain c

end Fleet

section Reading
variable {printed : Bytes} {p q : Pipe} {limit : Nat}

-- All that is printed is taken or left, and nothing is left at the end.
structure Holding (limit : Nat) (printed : Bytes) (p : Pipe) : Prop where
  whole : p.taken ++ p.left = printed
  within : p.taken.length ≤ limit
  ended : p.closed = true → p.left = []

theorem read_holding (holding : Holding limit printed p) (read : p.read limit size = (q,false)) : Holding limit printed q := by
  unfold Pipe.read at read
  dsimp only at read
  generalize sized : min (size + 1) (max 1 (min maxRead (limit - p.taken.length + 1))) = n at read
  split at read
  · rename_i none
    cases read
    have ended : p.left = [] := (List.take_eq_nil_iff.mp none).resolve_left (by omega)
    exact ⟨holding.whole,holding.within,fun _ => ended⟩
  · rename_i more
    obtain ⟨rest,split⟩ := List.take_prefix n p.left
    generalize p.left.take n = chunk at more split read
    obtain ⟨rfl,fits⟩ := Prod.mk.inj read
    have short : chunk.length ≤ limit - p.taken.length := by simpa using fits
    have begun : p.left ≠ [] := by
      rw [← split]
      exact fun none => more (List.append_eq_nil_iff.mp none).1
    have within := holding.within
    rw [List.take_of_length_le short]
    refine ⟨?_,?_,fun closed => absurd (holding.ended closed) begun⟩
    · dsimp only
      rw [← split,List.drop_left,List.append_assoc,split]
      exact holding.whole
    · rw [List.length_append]
      omega

theorem boundedChild_whole {out err : Pipe} (holding : Holding maxOutput printed out) (calm : (boundedChild out err events).overflow = none)
    (timely : (boundedChild out err events).timedOut = false) : (boundedChild out err events).output = printed := by
  induction events generalizing out err with
  | nil =>
    have closed : out.closed = true ∧ err.closed = true := by simpa [boundedChild] using timely
    rw [boundedChild,← holding.whole,holding.ended closed.1,List.append_nil]
  | cons event rest ih =>
    cases event with
    | deadline =>
      have closed : out.closed = true ∧ err.closed = true := by simpa [boundedChild] using timely
      rw [boundedChild,← holding.whole,holding.ended closed.1,List.append_nil]
    | read stream size =>
      cases stream with
      | stdout =>
        rw [boundedChild] at calm timely ⊢
        split at calm
        · rename_i closed
          rw [if_pos closed] at timely ⊢
          exact ih holding calm timely
        · rename_i opened
          rw [if_neg opened] at timely ⊢
          cases taken : out.read maxOutput size with
          | mk next full =>
            rw [taken] at calm timely
            cases full with
            | true => cases calm
            | false => exact ih (read_holding holding taken) calm timely
      | stderr =>
        rw [boundedChild] at calm timely ⊢
        split at calm
        · rename_i closed
          rw [if_pos closed] at timely ⊢
          exact ih holding calm timely
        · rename_i opened
          rw [if_neg opened] at timely ⊢
          cases taken : err.read maxError size with
          | mk next full =>
            rw [taken] at calm timely
            cases full with
            | true => cases calm
            | false => exact ih holding calm timely

theorem ran_whole (child : Child) (calm : child.ran.overflow = none) (timely : child.ran.timedOut = false) : child.ran.output = child.printed :=
  boundedChild_whole ⟨rfl,Nat.zero_le _,nofun⟩ calm timely

end Reading

section Writing
variable {F : Type} {host : Host F} {t : Text} {bytes : Bytes}

theorem writer_exact (limits : Limits) (f : Floats F) : Exact (limits.writer f) f.read := by
  refine ⟨fun n t written => ?_,f.exact⟩
  dsimp only [Limits.writer] at written
  split at written
  · cases written
  · cases written
    exact Dumps.decimal_numeral n

theorem ascii_plain (s : Stdout) (narrow : c < 128) : s.Plain c := by
  intro bytes written
  have scalar : Utf8.surrogate c = false := by
    simp only [Utf8.surrogate,Bool.and_eq_false_iff,decide_eq_false_iff_not]
    omega
  rw [s.ascii c narrow] at written
  rw [Utf8.encodeChar,if_neg (by simp [scalar]),if_pos narrow,← written]

theorem encode_plain {s : Stdout} (plain : ∀ c ∈ t, s.Plain c) (written : s.encode t = some bytes) :
    Utf8.encode t = some bytes ∧ ∀ c ∈ t, c < 1114112 := by
  induction t generalizing bytes with
  | nil =>
    cases written
    exact ⟨rfl,List.forall_mem_nil _⟩
  | cons c rest ih =>
    obtain ⟨first,own,later⟩ := Option.bind_eq_some_iff.mp written
    obtain ⟨second,more,rfl⟩ := Option.map_eq_some_iff.mp later
    obtain ⟨encoded,small⟩ := ih (fun d inside => plain d (List.mem_cons_of_mem _ inside)) more
    refine ⟨?_,List.forall_mem_cons.mpr ⟨s.points c first own,small⟩⟩
    rw [Utf8.encode,plain c List.mem_cons_self first own,Option.bind_some,encoded]
    rfl

theorem chomp_newline (line : Bytes) : chomp (line ++ [newline]) = line := by
  rw [chomp,if_pos List.getLast?_concat,List.dropLast_concat]

theorem emit_read {fields : List (Text × Object F)} (distinct : Distinct (.dict fields))
    (plain : ∀ c, Holds c (.dict fields) → host.stdout.Plain c) (printed : emit host fields = some bytes) :
    ∃ values, Loads.parseBytes (chomp bytes) = some (.dict values) ∧ entries host.floats.read values = fields := by
  obtain ⟨t,written,later⟩ := Option.bind_eq_some_iff.mp printed
  obtain ⟨line,encoded,rfl⟩ := Option.map_eq_some_iff.mp later
  have exact' := writer_exact host.limits host.floats
  have clear : ∀ c ∈ t, host.stdout.Plain c := fun c inside =>
    (Dumps.dumps_mem exact' written inside).elim (ascii_plain host.stdout) (plain c)
  obtain ⟨utf8,small⟩ := encode_plain clear encoded
  obtain ⟨values,parsed,same⟩ := Dumps.dict_written exact' distinct written
  refine ⟨values,?_,same⟩
  rw [chomp_newline,Loads.parseBytes,Dumps.decode_encoded utf8 small]
  exact parsed

end Writing

section Receiving
variable {F : Type} {limits : Limits} {f : Floats F} {read : Int → Int → F} {c : Nat}

theorem text_plain (valid : Wrapper.validateText l depth nodes text = .ok after) (inside : c ∈ text) : Wrapper.surrogate c = false := by
  unfold Wrapper.validateText at valid
  split at valid
  · cases valid
  split at valid
  · cases valid
  · rename_i clear
    by_contra stray
    exact clear (List.any_eq_true.mpr ⟨c,inside,by simpa using stray⟩)

-- A value that is valid has no lone surrogate anywhere.
mutual
theorem valid_plain (valid : Wrapper.validateJson l depth nodes value = .ok after) (held : Holds c (Dumps.object read value)) :
    Wrapper.surrogate c = false := by
  match value with
  | .null => cases held
  | .bool _ => cases held
  | .int _ => cases held
  | .float _ _ => cases held
  | .text text =>
    cases held with
    | text inside => exact text_plain valid inside
  | .list items =>
    rw [Wrapper.validateJson] at valid
    split at valid
    · cases valid
    · cases held with
      | item member own =>
        obtain ⟨item,there,rfl⟩ := Dumps.objects_mem member
        exact items_plain valid there own
  | .dict fields =>
    rw [Wrapper.validateJson] at valid
    split at valid
    · cases valid
    · cases held with
      | key member own =>
        obtain ⟨field,there,rfl⟩ := Dumps.entries_mem member
        exact (fields_plain valid there).1 own
      | value member own =>
        obtain ⟨field,there,rfl⟩ := Dumps.entries_mem member
        exact (fields_plain valid there).2 own

theorem items_plain (valid : Wrapper.validateItems l depth nodes items = .ok after) (there : item ∈ items)
    (held : Holds c (Dumps.object read item)) : Wrapper.surrogate c = false := by
  match items with
  | [] => cases there
  | first :: items =>
    rw [Wrapper.validateItems] at valid
    split at valid
    · cases valid
    · rename_i own
      rcases List.mem_cons.mp there with same | later
      · rw [same] at held
        exact valid_plain own held
      · exact items_plain valid later held

theorem fields_plain (valid : Wrapper.validateFields l depth nodes fields = .ok after) (there : field ∈ fields) :
    (c ∈ field.1 → Wrapper.surrogate c = false) ∧ (Holds c (Dumps.object read field.2) → Wrapper.surrogate c = false) := by
  match fields with
  | [] => cases there
  | (key,item) :: fields =>
    rw [Wrapper.validateFields] at valid
    split at valid
    · cases valid
    · rename_i named
      split at valid
      · cases valid
      · rename_i own
        rcases List.mem_cons.mp there with same | later
        · rw [same]
          exact ⟨text_plain named,valid_plain own⟩
        · exact fields_plain valid later
end

theorem keysAre_fresh (keys : Wrapper.keysAre fields names = true) (fresh : key ∉ names) : key ∉ (fields.map Prod.fst : List Text) := by
  intro inside
  simp only [Wrapper.keysAre,Bool.and_eq_true,List.all_eq_true,List.contains_iff_mem] at keys
  exact fresh (keys.1 key inside)

theorem objects_mapped (items : List Value) : objects f.read items = items.map (Dumps.object f.read) := by
  induction items with
  | nil => rfl
  | cons item items ih => rw [List.map_cons,← ih]; rfl

-- What is known of a row that is taken.
structure Session (read : Int → Int → F) (fields : List (Text × Value)) : Prop where
  fresh : str "host" ∉ (fields.map Prod.fst : List Text)
  plain : ∀ c, Holds c (Dumps.object read (.dict fields)) → Wrapper.surrogate c = false

theorem protocolRow_ok (taken : protocolRow limits f value = .ok fields) : value = .dict fields ∧ Session read fields := by
  unfold protocolRow at taken
  split at taken
  · obtain ⟨_,keyed,taken⟩ := Attempt.bound_ok taken
    obtain ⟨_,checked,taken⟩ := Attempt.bound_ok taken
    obtain ⟨_,_,taken⟩ := Attempt.bound_ok taken
    cases taken
    refine ⟨rfl,?_,fun c held => ?_⟩
    · unfold rowKeys at keyed
      split at keyed
      · rename_i keys
        exact keysAre_fresh keys (by decide)
      · cases keyed
    · unfold protocolJson at checked
      split at checked
      · rename_i valid
        exact valid_plain valid held
      · cases checked
  · cases taken

theorem rows_ok (all : List.Forall₂ (fun value fields => protocolRow limits f value = .ok fields) values own) :
    values = own.map .dict ∧ ∀ fields ∈ own, Session read fields := by
  induction all with
  | nil => exact ⟨rfl,List.forall_mem_nil _⟩
  | cons first _ ih =>
    obtain ⟨rfl,session⟩ := protocolRow_ok first
    obtain ⟨rfl,later⟩ := ih
    exact ⟨rfl,List.forall_mem_cons.mpr ⟨session,later⟩⟩

theorem assign_fresh {fields : List (Text × Object F)} (fresh : key ∉ (fields.map Prod.fst : List Text)) (value : Object F) :
    assign fields key value = fields ++ [(key,value)] := if_neg fresh

theorem protocolRows_each (taken : protocolRows limits f name value = .ok rows) : ∃ values own, value = .list values ∧ values.length ≤ maxRows ∧
    List.Forall₂ (fun value fields => protocolRow limits f value = .ok fields) values own ∧
      rows = own.map fun fields => assign (entries f.read fields) (str "host") (.text name) := by
  unfold protocolRows at taken
  split at taken
  · rename_i values
    split at taken
    · cases taken
    rename_i few
    obtain ⟨own,each,same⟩ := Attempt.bound_ok taken
    cases same
    exact ⟨values,own,rfl,Nat.le_of_not_lt few,Attempt.mapM_ok each,rfl⟩
  · cases taken

theorem protocolRows_ok (taken : protocolRows limits f name value = .ok rows) : ∃ own : List (List (Text × Value)), value = .list (own.map .dict) ∧
    (∀ fields ∈ own, Session f.read fields) ∧ rows = own.map fun fields => hosted name (entries f.read fields) := by
  obtain ⟨values,own,rfl,_,each,rfl⟩ := protocolRows_each taken
  obtain ⟨rfl,sessions⟩ := rows_ok each
  refine ⟨own,rfl,sessions,List.map_congr_left fun fields inside => ?_⟩
  exact assign_fresh (by rw [Dumps.entries_keys]; exact (sessions fields inside).fresh) _

theorem oneLineJson_parsed (parsed : oneLineJson limits payload = .ok value) : Loads.parseBytes (chomp payload) = some value := by
  unfold oneLineJson at parsed
  split at parsed
  · cases parsed
  split at parsed
  · cases parsed
  split at parsed
  · cases parsed
  · unfold Wrapper.parseJson at parsed
    split at parsed
    · cases parsed
    · cases parsed
    · cases parsed
    · rename_i loaded
      cases valid : Wrapper.validateJson protocolLimits 0 1 _ with
      | error e =>
        rw [valid] at parsed
        cases parsed
      | ok nodes =>
        rw [valid] at parsed
        cases parsed
        exact Loads.loadsBytes_parse loaded

theorem response_rows (taken : parseExecutionResponse limits f payload name = .ok rows) : ∃ fields value,
    oneLineJson limits payload = .ok (.dict fields) ∧ Wrapper.get fields "ok" = some (.bool true) ∧
      Wrapper.keysAre fields (["ok","rows"].map str) = true ∧ Wrapper.get fields "rows" = some value ∧
        protocolRows limits f name value = .ok rows := by
  unfold parseExecutionResponse at taken
  split at taken
  · cases taken
  · rename_i fields parsed
    split at taken
    · split at taken <;> cases taken
    · rename_i fine
      split at taken
      · cases taken
      · rename_i keyed
        split at taken
        · rename_i value found
          exact ⟨fields,value,parsed,fine,Bool.eq_true_of_not_eq_false keyed,found,taken⟩
        · cases taken
    · cases taken
  · cases taken

theorem response_ok (taken : parseExecutionResponse limits f payload name = .ok rows) : ∃ fields, ∃ own : List (List (Text × Value)),
    Loads.parseBytes (chomp payload) = some (.dict fields) ∧ Wrapper.get fields "ok" = some (.bool true) ∧
      Wrapper.get fields "rows" = some (.list (own.map .dict)) ∧ (∀ fields ∈ own, Session f.read fields) ∧
        rows = own.map fun fields => hosted name (entries f.read fields) := by
  obtain ⟨fields,value,parsed,fine,_,found,taken⟩ := response_rows taken
  obtain ⟨own,rfl,sessions,same⟩ := protocolRows_ok taken
  exact ⟨fields,own,oneLineJson_parsed parsed,fine,found,sessions,same⟩

end Receiving

section Replies
variable {F : Type} {host : Host F}

def codes : List String := ["protocol","remote","timeout","resource_limit"]

-- What the bootstrap prints is a refusal, or all the rows the child printed.
inductive Replies (host : Host F) (printed bytes : Bytes) : Prop where
  | refusal (code : String) (known : code ∈ codes) (said : emit host (refusal code) = some bytes)
  | rows (own : printedRows host.floats printed = some rows) (said : emit host (response rows) = some bytes)

theorem answer_replies (said : answer host output = some bytes) : Replies host output bytes := by
  unfold answer at said
  split at said
  · exact .refusal "protocol" (by decide) said
  split at said
  · exact .refusal "protocol" (by decide) said
  split at said
  · rename_i rows loaded
    have own : printedRows host.floats output = some (objects host.floats.read rows) := by
      rw [printedRows,Loads.loadsBytes_parse loaded]
    rcases Option.or_eq_some_iff.mp said with whole | ⟨_,refused⟩
    · exact .rows own whole
    · exact .refusal "remote" (by decide) refused
  · exact .refusal "resource_limit" (by decide) said
  · exact .refusal "protocol" (by decide) said

theorem bootstrap_replies (said : bootstrap host args artifact child = some bytes) : Replies host child.printed bytes := by
  unfold bootstrap at said
  split at said
  · exact .refusal "protocol" (by decide) said
  split at said
  · exact .refusal "protocol" (by decide) said
  split at said
  · exact .refusal "remote" (by decide) said
  split at said
  · exact .refusal "timeout" (by decide) said
  rename_i timely
  split at said
  · exact .refusal "resource_limit" (by decide) said
  · exact .refusal "protocol" (by decide) said
  rename_i calm
  split at said
  · exact .refusal "remote" (by decide) said
  · rw [ran_whole child calm (by simpa using timely)] at said
    exact answer_replies said

theorem refusal_plain (known : code ∈ codes) (held : Holds c (.dict (refusal (F := F) code))) : c < 128 := by
  have names : ∀ c ∈ str "ok" ++ str "code",c < 128 := by decide
  have texts : ∀ code ∈ codes,∀ c ∈ str code,c < 128 := by decide
  cases held with
  | key member own =>
    rcases List.mem_pair.mp member with rfl | rfl
    · exact names c (List.mem_append_left _ own)
    · exact names c (List.mem_append_right _ own)
  | value member own =>
    rcases List.mem_pair.mp member with rfl | rfl
    · cases own
    · cases own with
      | text inside => exact texts code known c inside

theorem refusal_distinct (code : String) : Distinct (.dict (refusal (F := F) code)) := by
  have unique : (["ok","code"].map str).Nodup := by decide
  refine .dict unique fun field inside => ?_
  rcases List.mem_pair.mp inside with rfl | rfl
  · exact .bool false
  · exact .text _

theorem response_plain {s : Stdout} {rows : List (Object F)} (plain : ∀ row ∈ rows, ∀ c, Holds c row → s.Plain c)
    (held : Holds c (.dict (response rows))) : s.Plain c := by
  have names : ∀ c ∈ str "ok" ++ str "rows",c < 128 := by decide
  cases held with
  | key member own =>
    rcases List.mem_pair.mp member with rfl | rfl
    · exact ascii_plain s (names c (List.mem_append_left _ own))
    · exact ascii_plain s (names c (List.mem_append_right _ own))
  | value member own =>
    rcases List.mem_pair.mp member with rfl | rfl
    · cases own
    · cases own with
      | item inside held => exact plain _ inside c held

theorem response_distinct (own : printedRows host.floats printed = some rows) : Distinct (.dict (response rows)) := by
  have unique : (["ok","rows"].map str).Nodup := by decide
  refine .dict unique fun field inside => ?_
  rcases List.mem_pair.mp inside with rfl | rfl
  · exact .bool true
  · unfold printedRows at own
    split at own
    · rename_i parsed
      cases own
      obtain ⟨text,_,read⟩ := Option.bind_eq_some_iff.mp parsed
      exact Dumps.parse_distinct read
    · cases own

theorem get_entries {read : Int → Int → F} (fields : List (Text × Value)) (key : String) :
    ((entries read fields).find? fun field => field.1 = str key).map Prod.snd = (Wrapper.get fields key).map (Dumps.object read) := by
  induction fields with
  | nil => rfl
  | cons field fields ih =>
    by_cases same : field.1 = str key
    · simp [entries,Wrapper.get,same]
    · simpa [entries,Wrapper.get,same] using ih

theorem refusal_refused (code : String) (known : code ∈ codes) (said : emit host (refusal code) = some bytes) :
    parseExecutionResponse limits host.floats bytes name ≠ .ok rows := by
  intro taken
  obtain ⟨fields,own,parsed,fine,_⟩ := response_ok taken
  obtain ⟨values,again,same⟩ := emit_read (refusal_distinct code)
    (fun _ held => ascii_plain host.stdout (refusal_plain known held)) said
  rw [parsed] at again
  cases again
  have kept := @get_entries _ host.floats.read fields "ok"
  rw [same,fine] at kept
  cases kept

-- The rows of a response that is taken are those the child printed, where they can be written.
theorem taken_printed (said : bootstrap host args artifact child = some bytes) (writable : Writable host child.printed)
    (taken : parseExecutionResponse limits host.floats bytes name = .ok rows) : ∃ own : List (Row F),
      printedRows host.floats child.printed = some (own.map .dict) ∧ rows = own.map (hosted name) := by
  obtain ⟨fields,own,parsed,fine,found,_,rfl⟩ := response_ok taken
  cases bootstrap_replies said with
  | refusal code known said => exact absurd taken (refusal_refused code known said)
  | @rows printed own' said =>
    have plain : ∀ c, Holds c (.dict (response printed)) → host.stdout.Plain c := fun _ held =>
      response_plain (writable printed own') held
    obtain ⟨values,again,same⟩ := emit_read (response_distinct own') plain said
    rw [parsed] at again
    cases again
    have kept := @get_entries _ host.floats.read fields "rows"
    rw [same,found] at kept
    have shape : printed = objects host.floats.read (own.map .dict) := by
      cases kept
      rfl
    refine ⟨own.map (entries host.floats.read),?_,?_⟩
    · rw [own',shape,objects_mapped,List.map_map,List.map_map]
      rfl
    · rw [List.map_map]
      rfl

theorem hosted_injective (name : Text) : Function.Injective (hosted (F := F) name) := fun _ _ same => List.append_cancel_right same

theorem taken_scalar (taken : parseExecutionResponse limits host.floats bytes name = .ok rows)
    (own : printedRows host.floats printed = some (List.map .dict held)) (same : rows = held.map (hosted name)) :
    ∀ row ∈ held, ∀ c, Holds c (.dict row) → Wrapper.surrogate c = false := by
  obtain ⟨fields,values,_,_,_,sessions,rfl⟩ := response_ok taken
  have mapped : held = values.map (entries host.floats.read) := by
    refine ( List.map_injective_iff.mpr (hosted_injective name)) ?_
    rw [← same,List.map_map]
    rfl
  intro row inside c within
  subst mapped
  obtain ⟨value,among,rfl⟩ := List.mem_map.mp inside
  exact (sessions value among).plain c within

theorem ended_only (taken : executeRemoteHost host limits name command artifact child delivery = .ok rows) : ∃ complaint, delivery = .ended complaint := by
  cases delivery with
  | ended complaint => exact ⟨complaint,rfl⟩
  | overflow stream => cases stream <;> cases taken
  | _ => cases taken

theorem ended_taken {limits : Limits} (taken : executeRemoteHost host limits name command artifact child delivery = .ok rows) :
    ∃ bytes, bootstrap host command.arguments artifact child = some bytes ∧ parseExecutionResponse limits host.floats bytes name = .ok rows := by
  obtain ⟨complaint,rfl⟩ := ended_only taken
  rw [executeRemoteHost] at taken
  split at taken
  · rename_i bytes said
    exact ⟨bytes,said,taken⟩
  · cases taken

-- The rows are the child's own where standard output writes their characters as UTF-8 does. Where it
-- writes all but the lone surrogates so, rows are reported as the child's own only there.
theorem execution_exact (host : Host F) (limits : Limits) (name : Text) (command : Command) (artifact : Bytes) (child : Child) (delivery : Delivery) :
    (Writable host child.printed → Exactly host.floats name child.printed (executeRemoteHost host limits name command artifact child delivery)) ∧
    ((∀ c, Wrapper.surrogate c = false → host.stdout.Plain c) → ∀ rows, executeRemoteHost host limits name command artifact child delivery = .ok rows →
      Exactly host.floats name child.printed (.ok rows) → Writable host child.printed) := by
  constructor
  · intro writable rows result
    obtain ⟨_,said,taken⟩ := ended_taken result
    exact taken_printed said writable taken
  · intro utf8 rows result exactly'
    obtain ⟨own,printed,same⟩ := exactly' rows rfl
    obtain ⟨_,_,taken⟩ := ended_taken result
    intro rows' printed' row inside c within
    cases printed.symm.trans printed'
    obtain ⟨fields,among,rfl⟩ := List.mem_map.mp inside
    exact utf8 c (taken_scalar taken printed same fields among c within)

end Replies

section Titles
variable {F : Type}

def title : Object F → Option Text
  | .dict fields =>
    match (fields.find? fun field => field.1 = str "title").map Prod.snd with
    | some (.text t) => some t
    | _ => none
  | _ => none

def demoFloats : Floats Int := ⟨fun mantissa _ => mantissa,fun _ => none,fun _ => false,nofun⟩

def demoHost (stdout : Stdout) : Host Int := ⟨⟨1000,1000,some 4300⟩,stdout,fun _ => true,demoFloats⟩

-- UTF-8 with an error handler, which it asks about lone surrogates.
def utf8 (handler : Nat → Option Bytes) : Stdout where
  char c := if Utf8.surrogate c then handler c else if 0x110000 ≤ c then none else Utf8.encodeChar c
  ascii c narrow := by
    have scalar : Utf8.surrogate c = false := by
      simp only [Utf8.surrogate,Bool.and_eq_false_iff,decide_eq_false_iff_not]
      omega
    simp [scalar,Utf8.encodeChar,narrow,show ¬ 1114112 ≤ c by omega]
  points c bytes written := by
    split at written
    · rename_i lone
      simp only [Utf8.surrogate,Bool.and_eq_true,decide_eq_true_eq] at lone
      omega
    · split at written
      · cases written
      · omega

def strict (_ : Nat) : Option Bytes := none
def surrogateescape (c : Nat) : Option Bytes := if 0xDC80 ≤ c ∧ c ≤ 0xDCFF then some [(c - 0xDC00).toUInt8] else none

theorem utf8_plain (handler : Nat → Option Bytes) (scalar : Utf8.surrogate c = false) : (utf8 handler).Plain c := by
  intro bytes written
  simp only [utf8,scalar,Bool.false_eq_true,if_false] at written
  split at written
  · cases written
  · exact written

theorem utf8_strict (c : Nat) : (utf8 strict).Plain c := by
  intro bytes written
  cases lone : Utf8.surrogate c with
  | false => exact utf8_plain strict lone bytes written
  | true => simp [utf8,lone,strict] at written

-- Latin-1, which raises on what it has no byte for.
def latin1 : Stdout where
  char c := if c < 256 then some [c.toUInt8] else none
  ascii c narrow := if_pos (by omega)
  points c bytes written := by
    split at written
    · omega
    · cases written

-- One session with this title, in JSON.
def demoPrinted (titled : String) : Bytes :=
  Wrapper.ascii ("[\x7b\"agent\":\"codex\",\"session_id\":\"s\",\"project\":\"\",\"transcript\":\"\",\"updated_at\":0," ++
    "\"title\":\"" ++ titled ++ "\",\"status\":\"idle\",\"extra\":\x7b\x7d,\"parent_id\":null\x7d]\n")

def demoChild (titled : String) : Child where
  printed := demoPrinted titled
  complaints := []
  events := [.read .stdout 4096,.read .stdout 4096,.read .stderr 4096]
  returncode := 0
  raises := false

def demoRun (stdout : Stdout) (titled : String) : Except FailureCode (List (Row Int)) :=
  executeRemoteHost (demoHost stdout) ⟨1000,1000,some 4300⟩ (str "box") .status [1] (demoChild titled) (.ended [])

def rowTitles (result : Except FailureCode (List (Row Int))) : Option (List (Option Text)) :=
  match result with
  | .ok rows => some (rows.map fun row => title (.dict row))
  | .error _ => none

theorem title_hosted (row : Row Int) : title (.dict (hosted name row)) = title (.dict row) := by
  have other : ¬ str "host" = str "title" := by decide
  simp [title,hosted,List.find?_append,other]

-- One letter arrives as it is.
theorem letter_kept : ∃ rows, demoRun (utf8 strict) "\\u00e9" = .ok rows ∧ rowTitles (.ok rows) = some [some [0xE9]] ∧
    Exactly demoFloats (str "box") (demoChild "\\u00e9").printed (.ok rows) ∧ Writable (demoHost (utf8 strict)) (demoChild "\\u00e9").printed := by
  have taken : rowTitles (demoRun (utf8 strict) "\\u00e9") = some [some [0xE9]] := by decide +kernel
  have exact' := execution_exact (demoHost (utf8 strict)) ⟨1000,1000,some 4300⟩ (str "box") .status [1] (demoChild "\\u00e9") (.ended [])
  have kept := exact'.1 fun _ _ _ _ c _ => utf8_strict c
  cases result : demoRun (utf8 strict) "\\u00e9" with
  | error code =>
    rw [result] at taken
    cases taken
  | ok rows =>
    rw [result] at taken
    rw [show executeRemoteHost _ _ _ _ _ _ _ = .ok rows from result] at kept
    exact ⟨rows,rfl,taken,kept,exact'.2 (fun _ => utf8_plain strict) rows result kept⟩

theorem titles_kept {printed : Bytes} (exactly' : Exactly demoFloats name printed result) (taken : rowTitles result = some titles) :
    (printedRows demoFloats printed).map (List.map title) = some titles := by
  cases result with
  | error code => cases taken
  | ok rows =>
    obtain ⟨own,printed',rfl⟩ := exactly' rows rfl
    simpa [printed',rowTitles,Function.comp_def,title_hosted] using taken

-- Two lone surrogates are written as two bytes that are read as one letter, where escapes are written
-- so; and two letters are in Latin-1.
theorem stray_bytes_altered :
    ¬ Exactly demoFloats (str "box") (demoChild "\\udcc3\\udca9").printed (demoRun (utf8 surrogateescape) "\\udcc3\\udca9") ∧
    ¬ Exactly demoFloats (str "box") (demoChild "\\u00c3\\u00a9").printed (demoRun latin1 "\\u00c3\\u00a9") := by
  constructor
  · have taken : rowTitles (demoRun (utf8 surrogateescape) "\\udcc3\\udca9") = some [some [0xE9]] := by decide +kernel
    have printed : (printedRows demoFloats (demoChild "\\udcc3\\udca9").printed).map (List.map title) = some [some [0xDCC3,0xDCA9]] := by
      decide +kernel
    exact fun exactly' => absurd (printed.symm.trans (titles_kept exactly' taken)) (by decide)
  · have taken : rowTitles (demoRun latin1 "\\u00c3\\u00a9") = some [some [0xE9]] := by decide +kernel
    have printed : (printedRows demoFloats (demoChild "\\u00c3\\u00a9").printed).map (List.map title) = some [some [0xC3,0xA9]] := by
      decide +kernel
    exact fun exactly' => absurd (printed.symm.trans (titles_kept exactly' taken)) (by decide)

end Titles
end AgentSideCar.Execution
