import AgentSideCar.Send.Acp

namespace AgentSideCar.Send.WriteLine

-- What a cancel check, a select or a read may raise while a frame is being written.
inductive Trouble where | cancelled | overflow | other
  deriving DecidableEq

-- The clock is read before each piece of work; `late` is whether a reading was past the deadline.
structure Drain where
  late : Bool := false
  raised : Option Trouble := none
inductive OsWrite where
  | wouldBlock
  | failed
  | wrote (count : Nat)
structure Writable where
  late : Bool := false
  os : OsWrite
-- A selector reports a stream at most once: stdin is there or not, between the streams read.
structure Ready where
  before : List Drain := []
  stdin : Option Writable := none
  after : List Drain := []
-- One turn of the loop: the cancel check, the clock, the select.
structure Turn where
  cancelled : Option Trouble := none
  late : Bool := false
  ready : Except Trouble Ready

inductive Stop where
  | late
  | closed
  | raised (trouble : Trouble)
  deriving DecidableEq

def drain : List Drain → Option Stop
  | [] => none
  | event :: rest =>
    if event.late then some .late
    else match event.raised with
      | some trouble => some (.raised trouble)
      | none => drain rest

-- The bytes that os.write took, which may be fewer than it was given.
def push (payload : List UInt8) (written : Nat) (stdin : Writable) : List UInt8 × Option Stop :=
  if stdin.late then ([],some .late)
  else match stdin.os with
    | .wouldBlock => ([],none)
    | .failed => ([],some .closed)
    | .wrote count =>
      let bytes := (segment payload written).take count
      if bytes = [] then ([],some .closed) else (bytes,none)

def dispatch (payload : List UInt8) (written : Nat) (ready : Ready) : List UInt8 × Option Stop :=
  match drain ready.before,ready.stdin with
  | some stop,_ => ([],some stop)
  | none,none => ([],drain ready.after)
  | none,some stdin =>
    match push payload written stdin with
    | (bytes,some stop) => (bytes,some stop)
    | (bytes,none) => (bytes,drain ready.after)

def turn (payload : List UInt8) (written : Nat) (t : Turn) : List UInt8 × Option Stop :=
  match t.cancelled with
  | some trouble => ([],some (.raised trouble))
  | none =>
    if t.late then ([],some .late)
    else match t.ready with
      | .error trouble => ([],some (.raised trouble))
      | .ok ready => dispatch payload written ready

structure Loop where
  crossed : List UInt8
  written : Nat
  stop : Option Stop

-- When the turns end, so has the deadline.
def writeLoop (payload : List UInt8) : Nat → List Turn → Loop
  | written,[] => ⟨[],written,none⟩
  | written,t :: rest =>
    if payload.length < written then ⟨[],written,none⟩
    else match turn payload written t with
      | (bytes,some stop) => ⟨bytes,written + bytes.length,some stop⟩
      | (bytes,none) =>
        let later := writeLoop payload (written + bytes.length) rest
        {later with crossed := bytes ++ later.crossed}

structure DuplexWriteResult where
  boundary : PromptWriteBoundary
  bytesWritten : Nat
  bytesTotal : Nat
  deriving DecidableEq

-- A recorded result, and the number of the call that recorded it.
structure Recorded where
  call : Nat
  result : DuplexWriteResult
  deriving DecidableEq

def writeResult (bytesWritten bytesTotal : Nat) : DuplexWriteResult :=
  ⟨writeBoundary bytesWritten bytesTotal,bytesWritten,bytesTotal⟩

structure DuplexProcess where
  started : Bool := true
  closed : Bool := false
  stdinClosed : Bool := false
  calls : Nat := 0
  lastWriteResult : Option Recorded := none
  earlier : ∀ recorded ∈ lastWriteResult, recorded.call < calls := by simp

inductive Fault where
  | newlineInPayload
  | stdinIsClosed
  | badDeadline
  | alreadyActive
  | register
  | during (trouble : Trouble)
  deriving DecidableEq

-- What holds when the call enters: whether the deadline is acceptable, what the cancel check
-- raises, what registering stdin raises.
structure Entry where
  goodDeadline : Bool := true
  cancelled : Option Trouble := none
  register : Option Fault := none

inductive Answer where
  | returned (recorded : Recorded)
  | raised (fault : Fault) (writeResult : Option Recorded)
  deriving DecidableEq

def Answer.recorded : Answer → Option Recorded
  | .returned recorded => some recorded
  | .raised _ recorded => recorded

structure Call where
  number : Nat
  crossed : List UInt8
  answer : Answer
  after : DuplexProcess

-- Raised before this call has recorded anything.
def refuse (s : DuplexProcess) (fault : Fault) : Call :=
  ⟨s.calls,[],.raised fault none,{s with calls := s.calls + 1,earlier := fun r kept => Nat.lt_succ_of_lt (s.earlier r kept)}⟩

def recordWriteResult (s : DuplexProcess) (result : DuplexWriteResult) (closes : Bool) : DuplexProcess :=
  {s with
    stdinClosed := s.stdinClosed || closes
    calls := s.calls + 1
    lastWriteResult := some ⟨s.calls,result⟩
    earlier := fun r same => by cases Option.some.inj same; exact Nat.lt_succ_self _}

-- From the first record on.
def writeFrame (s : DuplexProcess) (payload : List UInt8) (register : Option Fault) (turns : List Turn) : Call :=
  let total := payload.length + 1
  match register with
  | some fault => ⟨s.calls,[],.raised fault none,recordWriteResult s (writeResult 0 total) false⟩
  | none =>
    let loop := writeLoop payload 0 turns
    let result := writeResult loop.written total
    let recorded : Recorded := ⟨s.calls,result⟩
    let answer : Answer := match loop.stop with
      | some (.raised trouble) => .raised (.during trouble) (some recorded)
      | _ => .returned recorded
    ⟨s.calls,loop.crossed,answer,recordWriteResult s result (decide (loop.stop = some .closed))⟩

def writeLine (s : DuplexProcess) (payload : List UInt8) (entry : Entry) (turns : List Turn) : Call :=
  if newline ∈ payload then refuse s .newlineInPayload
  else if s.closed || !s.started || s.stdinClosed then refuse s .stdinIsClosed
  else if !entry.goodDeadline then refuse s .badDeadline
  else match entry.cancelled with
    | some trouble => refuse s (.during trouble)
    | none => writeFrame s payload entry.register turns

-- What a report has to say of the bytes that crossed.
def stated (crossed line : List UInt8) : DuplexWriteResult where
  boundary := if crossed = [] then .none else if crossed = line then .complete else .partially
  bytesWritten := crossed.length
  bytesTotal := line.length

structure Truthful (line : List UInt8) (call : Call) : Prop where
  beginning : call.crossed <+: line
  reported : ∀ recorded ∈ call.answer.recorded, recorded = ⟨call.number,stated call.crossed line⟩
  last : call.after.lastWriteResult = some ⟨call.number,stated call.crossed line⟩

-- The checks made before anything is recorded all pass.
def Admitted (s : DuplexProcess) (payload : List UInt8) (entry : Entry) : Prop :=
  newline ∉ payload ∧ s.closed = false ∧ s.started = true ∧ s.stdinClosed = false ∧ entry.goodDeadline = true ∧
    entry.cancelled = none

section Crossing
variable {payload : List UInt8} {written : Nat}

theorem turn_takes (t : Turn) : ∃ count, (turn payload written t).1 = (segment payload written).take count := by
  have nothing : ∃ count, ([] : List UInt8) = (segment payload written).take count := ⟨0,rfl⟩
  unfold turn
  split
  · exact nothing
  · split
    · exact nothing
    · split
      · exact nothing
      · rename_i ready _
        have pushed : ∀ stdin, ∃ count, (push payload written stdin).1 = (segment payload written).take count := by
          intro stdin
          unfold push
          split
          · exact nothing
          · cases stdin.os with
            | wouldBlock => exact nothing
            | failed => exact nothing
            | wrote count =>
              simp only
              split
              · exact nothing
              · exact ⟨count,rfl⟩
        unfold dispatch
        split
        · exact nothing
        · exact nothing
        · rename_i stdin _ _
          obtain ⟨count,bytes⟩ := pushed stdin
          split <;> exact ⟨count,by rw [←bytes,‹push payload written stdin = _›]⟩

theorem segment_begins (inside : written ≤ payload.length) :
    segment payload written <+: (payload ++ [newline]).drop written := by
  rw [List.drop_append_of_le_length inside]
  unfold segment
  split
  · exact (List.take_prefix _ _).trans (List.prefix_append _ _)
  · have ended : written = payload.length := by omega
    simp [ended]

theorem writeLoop_begins (turns : List Turn) :
    (writeLoop payload written turns).crossed <+: (payload ++ [newline]).drop written ∧
      (writeLoop payload written turns).written = written + (writeLoop payload written turns).crossed.length := by
  induction turns generalizing written with
  | nil => exact ⟨List.nil_prefix,rfl⟩
  | cons t rest ih =>
    unfold writeLoop
    split
    · exact ⟨List.nil_prefix,rfl⟩
    · rename_i unfinished
      obtain ⟨count,taken⟩ : ∃ count, (turn payload written t).1 = (segment payload written).take count := turn_takes t
      have begins : (turn payload written t).1 <+: (payload ++ [newline]).drop written :=
        taken ▸ (List.take_prefix _ _).trans (segment_begins (by omega))
      split
      · rename_i bytes stop here
        rw [here] at begins
        exact ⟨begins,rfl⟩
      · rename_i bytes here
        rw [here] at begins
        obtain ⟨later,counted⟩ := @ih (written + bytes.length)
        obtain ⟨left,cut⟩ := begins
        refine ⟨?_,by simp only [counted,List.length_append,Nat.add_assoc]⟩
        have remains : (payload ++ [newline]).drop (written + bytes.length) = left := by
          rw [←List.drop_drop,←cut,List.drop_left]
        rw [←cut]
        exact (List.prefix_append_right_inj _).mpr (remains ▸ later)

end Crossing

theorem stated_exact {line : List UInt8} (begins : crossed <+: line) : writeResult crossed.length line.length = stated crossed line := by
  have whole : line.length ≤ crossed.length ↔ crossed = line :=
    ⟨fun long => begins.eq_of_length_le long,fun same => by rw [same]⟩
  simp only [writeResult,stated,writeBoundary,whole,List.length_eq_zero_iff]

theorem refused_untruthful : ¬ Truthful line (refuse s fault) := fun truthful =>
  absurd (s.earlier _ truthful.last) (Nat.lt_irrefl _)

theorem line_length (payload : List UInt8) : (payload ++ [newline]).length = payload.length + 1 := by simp

theorem writeFrame_truthful (s : DuplexProcess) (payload : List UInt8) (register : Option Fault) (turns : List Turn) :
    Truthful (payload ++ [newline]) (writeFrame s payload register turns) := by
  unfold writeFrame
  cases register with
  | some fault =>
    have right : writeResult 0 (payload ++ [newline]).length = stated [] (payload ++ [newline]) :=
      stated_exact List.nil_prefix
    rw [line_length] at right
    exact ⟨List.nil_prefix,fun _ told => absurd told (by simp [Answer.recorded]),congrArg (some ∘ Recorded.mk s.calls) right⟩
  | none =>
    obtain ⟨begins,counted⟩ := @writeLoop_begins payload 0 turns
    rw [List.drop_zero] at begins
    have right : writeResult (writeLoop payload 0 turns).written (payload.length + 1) =
        stated (writeLoop payload 0 turns).crossed (payload ++ [newline]) := by
      rw [counted,Nat.zero_add,←line_length payload]
      exact stated_exact begins
    refine ⟨begins,fun recorded told => ?_,congrArg (some ∘ Recorded.mk s.calls) right⟩
    dsimp only at told ⊢
    rw [←right]
    split at told <;> exact (Option.some.inj told).symm

theorem write_line_truthful (s : DuplexProcess) (payload : List UInt8) (entry : Entry) (turns : List Turn) :
    Truthful (payload ++ [newline]) (writeLine s payload entry turns) ↔ Admitted s payload entry := by
  constructor
  · intro truthful
    unfold writeLine at truthful
    split at truthful
    · exact absurd truthful refused_untruthful
    · split at truthful
      · exact absurd truthful refused_untruthful
      · split at truthful
        · exact absurd truthful refused_untruthful
        · split at truthful
          · exact absurd truthful refused_untruthful
          · rename_i plain opened good _ quiet
            simp only [Bool.or_eq_true,Bool.not_eq_true',not_or,Bool.not_eq_true,Bool.not_eq_false] at opened
            simp only [Bool.not_eq_true',Bool.not_eq_false] at good
            exact ⟨plain,opened.1.1,opened.1.2,opened.2,good,quiet⟩
  · intro ⟨plain,opened,started,unshut,good,quiet⟩
    have admitted : writeLine s payload entry turns = writeFrame s payload entry.register turns := by
      simp [writeLine,plain,opened,started,unshut,good,quiet]
    rw [admitted]
    exact writeFrame_truthful s payload entry.register turns

-- A first frame crosses whole; the next call finds the send cancelled as it enters.
def wholeTurns : List Turn := [⟨none,false,.ok {stdin := some ⟨false,.wrote 2⟩}⟩,⟨none,false,.ok {stdin := some ⟨false,.wrote 1⟩}⟩]
def firstCall : Call := writeLine {} [104,105] {} wholeTurns
def cancelledCall : Call := writeLine firstCall.after [104,105,33] {cancelled := some .cancelled} wholeTurns

theorem cancelled_entry_misreports : firstCall.crossed = [104,105,10] ∧ cancelledCall.crossed = [] ∧
    cancelledCall.answer = .raised (.during .cancelled) none ∧
    cancelledCall.after.lastWriteResult = some ⟨0,⟨.complete,3,3⟩⟩ ∧
    ¬ Truthful [104,105,33,10] cancelledCall :=
  ⟨by decide,by decide,by decide,by decide,fun truthful => absurd truthful.last (by decide)⟩

-- The coarser loop that the exchange with the agent is built on does the same: one poll or two a turn.
def Trouble.snag : Trouble → Snag
  | .cancelled => .cancelled
  | .overflow => .overflow
  | .other => .duplex

def Loop.lineWrite (loop : Loop) : LineWrite where
  crossed := loop.crossed
  written := loop.written
  raised := match loop.stop with
    | some (.raised trouble) => some trouble.snag
    | _ => none

theorem writeLoop_refines (payload : List UInt8) (turns : List Turn) (written : Nat) :
    ∃ polls, pushLine payload written polls = (writeLoop payload written turns).lineWrite := by
  induction turns generalizing written with
  | nil => exact ⟨[],rfl⟩
  | cons t rest ih =>
    unfold writeLoop
    split
    · exact ⟨[],rfl⟩
    · rename_i unfinished
      obtain ⟨count,taken⟩ : ∃ count, (turn payload written t).1 = (segment payload written).take count := turn_takes t
      split
      · rename_i bytes stop here
        rw [here] at taken
        by_cases idle : bytes = []
        · subst idle
          cases stop with
          | late => exact ⟨[.expired],by simp [pushLine,unfinished,Loop.lineWrite]⟩
          | closed => exact ⟨[.broken],by simp [pushLine,unfinished,Loop.lineWrite]⟩
          | raised trouble => exact ⟨[.raised trouble.snag],by simp [pushLine,unfinished,Loop.lineWrite]⟩
        · have wrote : (segment payload written).take count = bytes := taken.symm
          cases stop with
          | late => exact ⟨[.wrote count none],by simp [pushLine,unfinished,wrote,idle,Loop.lineWrite]⟩
          | closed => exact ⟨[.wrote count none],by simp [pushLine,unfinished,wrote,idle,Loop.lineWrite]⟩
          | raised trouble =>
            exact ⟨[.wrote count (some trouble.snag)],by simp [pushLine,unfinished,wrote,idle,Loop.lineWrite]⟩
      · rename_i bytes here
        rw [here] at taken
        obtain ⟨polls,later⟩ := ih (written + bytes.length)
        by_cases idle : bytes = []
        · subst idle
          exact ⟨.idle :: polls,by simpa [pushLine,unfinished] using later⟩
        · have wrote : (segment payload written).take count = bytes := taken.symm
          refine ⟨.wrote count none :: polls,?_⟩
          simp [pushLine,unfinished,wrote,idle,later,Loop.lineWrite]

end AgentSideCar.Send.WriteLine
