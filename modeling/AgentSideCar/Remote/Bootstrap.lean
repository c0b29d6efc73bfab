import AgentSideCar.Library.Lines
import AgentSideCar.Remote.Frames

namespace AgentSideCar.Wrapper
open Loads

def maxArtifact : Nat := 4194304
def maxError : Nat := 65536

def internalReady : Bytes := ascii "\x7b\"type\":\"ready\"\x7d"

def Frame.bytes (frame : Frame) : Bytes := frame.line ++ [newline]

-- What becomes of a write: it is done; the output is closed, or a signal asks to exit, with
-- some bytes across; or it fails with some bytes across.
inductive Sent where
  | done
  | closed (crossed : Nat)
  | failed (crossed : Nat)

structure Emission where
  frame : Frame
  crossed : Nat

-- The world around the wrapper: its interpreter, its writes in turn, and the child's status.
structure Surroundings where
  hooks : Hooks
  sends : Nat → Sent
  status : Int

structure RunChild where
  pending : Bytes := []
  errors : Nat := 0
  stdoutEof : Bool := false
  stderrEof : Bool := false
  failure : Option Code := none
  readySeen : Bool := false
  exitRequested : Option Bool := none
  wire : List Emission := []

-- A read gives a chunk, or nothing yet; an empty chunk is an end of file or a failed read.
inductive Read where
  | stdout (chunk : Option Bytes)
  | stderr (chunk : Option Nat)

-- One pass of the loop: what is read, whether the child has exited, and whether a heartbeat
-- is due. A pass may also raise, by a signal or by any other exception.
inductive Turn where
  | select (reads : List Read) (exited beat : Bool)
  | raises (signal : Bool)

section Loop
variable (w : Surroundings)

def emitBytes (frame : Frame) (s : RunChild) : RunChild :=
  match w.sends s.wire.length with
  | .done => {s with wire := s.wire ++ [⟨frame,frame.bytes.length⟩]}
  | .closed k => {s with wire := s.wire ++ [⟨frame,k⟩],exitRequested := some true}
  | .failed k => {s with wire := s.wire ++ [⟨frame,k⟩],exitRequested := some false}

def RunChild.halted (s : RunChild) : Bool := s.failure.isSome || s.exitRequested.isSome

-- The lines that are complete, one after the other.
def takeLines : Nat → RunChild → RunChild
  | 0,s => s
  | fuel + 1,s =>
    if s.halted then s
    else match Lines.nextLine newline s.pending with
      | none => if maxLine < s.pending.length then {s with failure := some .resourceLimit} else s
      | some (line,rest) =>
        if maxLine < line.length then {s with failure := some .resourceLimit}
        else if s.readySeen then
          if line = internalReady then {s with pending := rest,failure := some .protocol}
          else match eventLineError w.hooks line with
            | some code => {s with pending := rest,failure := some code}
            | none => takeLines fuel (emitBytes w (.event line) {s with pending := rest})
        else if line = internalReady then takeLines fuel (emitBytes w .ready {s with pending := rest,readySeen := true})
        else {s with pending := rest,failure := some .protocol}

def readStream (s : RunChild) (read : Read) : RunChild :=
  if s.halted then s
  else match read with
    | .stderr none => s
    | .stderr (some size) =>
      if s.stderrEof then s
      else if size = 0 then {s with stderrEof := true}
      else if maxError - s.errors < size then {s with errors := maxError,failure := some .protocol}
      else {s with errors := s.errors + size}
    | .stdout none => s
    | .stdout (some chunk) =>
      if s.stdoutEof then s
      else if chunk = [] then {s with stdoutEof := true}
      else
        let s := {s with pending := s.pending ++ chunk}
        takeLines w (s.pending.length + 1) s

inductive Ending where
  | running
  | returned (failure : Option Code)
  | raised (signal : Bool)

def turn (reads : List Read) (exited beat : Bool) (s : RunChild) : RunChild × Option Ending :=
  let s := reads.foldl (readStream w) s
  match s.exitRequested,s.failure with
  | some signal,_ => (s,some (.raised signal))
  | none,some code => (s,some (.returned (some code)))
  | none,none =>
    if exited = false then
      let s := if s.readySeen && beat then emitBytes w .ping s else s
      (s,s.exitRequested.map .raised)
    else if s.stdoutEof = false ∨ s.stderrEof = false then (s,none)
    else if s.pending ≠ [] then (s,some (.returned (some .protocol)))
    else if w.status ≠ 0 then (s,some (.returned (some .remote)))
    else if s.readySeen = false then (s,some (.returned (some .remote)))
    else (s,some (.returned none))

def runChild : List Turn → RunChild → RunChild × Ending
  | [],s => (s,.running)
  | .raises signal :: _,s => (s,.raised signal)
  | .select reads exited beat :: rest,s =>
    match turn w reads exited beat s with
    | (s,some ending) => (s,ending)
    | (s,none) => runChild rest s

def allowedArgs (args : List String) : Bool :=
  args = ["watch","--all","--json"] || args = ["watch","--all","--from-start","--json"]

def guarded (args : List String) (data : Nat) (turns : List Turn) : RunChild × Ending :=
  if allowedArgs args = false ∨ data = 0 ∨ maxArtifact < data then ({},.returned (some .protocol)) else runChild w turns {}

-- The whole wrapper. A signal may still come after the child is done with.
def bootstrap (args : List String) (data : Nat) (turns : List Turn) (signalled : Bool) : List Emission :=
  let (s,ending) := guarded w args data turns
  match signalled,ending with
  | true,_ => s.wire
  | false,.running => s.wire
  | false,.raised true => s.wire
  | false,.raised false => (emitBytes w (.error .remote) s).wire
  | false,.returned none => (emitBytes w .ended s).wire
  | false,.returned (some code) => (emitBytes w (.error code) s).wire

end Loop

def Emission.bytes (e : Emission) : Bytes := e.frame.bytes.take e.crossed

def wireBytes (wire : List Emission) : Bytes := wire.flatMap Emission.bytes

-- The lines that come out of the wire, with what is left of a last one.
def wireLines (wire : List Emission) : List Bytes :=
  Lines.lines newline (wireBytes wire) ++ [Lines.openRow newline (wireBytes wire)]

-- What the child writes, as it is read up to its end.
def output : List Read → Bytes
  | [] => []
  | .stdout (some chunk) :: rest => if chunk = [] then [] else chunk ++ output rest
  | _ :: rest => output rest

def Turn.reads : Turn → List Read
  | .select reads _ _ => reads
  | .raises _ => []

def written (turns : List Turn) : Bytes := output (turns.flatMap Turn.reads)

def Frame.terminal : Frame → Bool
  | .ended => true
  | .error _ => true
  | _ => false

def Emission.whole (e : Emission) : Prop := e.crossed = e.frame.bytes.length

def forwardedLine (e : Emission) : Option Bytes :=
  match e.frame with
  | .event line => some line
  | _ => none

def forwarded (wire : List Emission) : List Bytes := wire.filterMap forwardedLine

-- The complete lines of the child that are dealt with.
def RunChild.spoken (s : RunChild) : List Bytes := if s.readySeen then internalReady :: forwarded s.wire else []

def joined (lines : List Bytes) : Bytes := lines.flatMap (· ++ [newline])

-- The child's output that is still to be read, where `rest` is.
def RunChild.unread (s : RunChild) (rest : List Read) : Bytes := if s.stdoutEof then [] else output rest

-- What is on the wire while no terminal frame is: all of it across, but for a write that raised.
structure Wired (h : Hooks) (s : RunChild) : Prop where
  fine : ∀ e ∈ s.wire, Fine h e.frame ∧ e.frame.terminal = false
  whole : s.exitRequested = none → ∀ e ∈ s.wire, e.whole
  torn : s.exitRequested ≠ none → ∃ early last, s.wire = early ++ [last] ∧ ∀ e ∈ early, e.whole
  unready : s.readySeen = false → forwarded s.wire = []

-- What the child writes in all is its lines so far, an open row and what is unread.
def Splits (total : Bytes) (rest : List Read) (s : RunChild) : Prop :=
  s.halted = false → total = joined s.spoken ++ (s.pending ++ s.unread rest)

section Proofs
variable {w : Surroundings} {s t : RunChild} {total : Bytes} {rest : List Read}

theorem emitBytes_wire (w : Surroundings) (frame : Frame) (s : RunChild) :
    ∃ crossed, (emitBytes w frame s).wire = s.wire ++ [⟨frame,crossed⟩] := by
  unfold emitBytes
  split <;> exact ⟨_,rfl⟩

theorem emitBytes_wired (wired : Wired w.hooks s) (going : s.exitRequested = none) (frame : Frame)
    (fine : Fine w.hooks frame) (plain : frame.terminal = false) (ready : s.readySeen = true) : Wired w.hooks (emitBytes w frame s) := by
  have fines (k : Nat) : ∀ e ∈ s.wire ++ [⟨frame,k⟩], Fine w.hooks e.frame ∧ e.frame.terminal = false := by
    intro e inside
    rcases List.mem_append.mp inside with early | last
    · exact wired.fine e early
    · rw [List.mem_singleton.mp last]
      exact ⟨fine,plain⟩
  unfold emitBytes
  split
  · refine ⟨fines _,fun _ e inside => ?_,fun raised => absurd going raised,fun unready => ?_⟩
    · rcases List.mem_append.mp inside with early | last
      · exact wired.whole going e early
      · rw [List.mem_singleton.mp last]
        rfl
    · rw [ready] at unready
      cases unready
  · refine ⟨fines _,fun quiet => (nomatch quiet),fun _ => ⟨s.wire,_,rfl,wired.whole going⟩,fun unready => ?_⟩
    rw [ready] at unready
    cases unready
  · refine ⟨fines _,fun quiet => (nomatch quiet),fun _ => ⟨s.wire,_,rfl,wired.whole going⟩,fun unready => ?_⟩
    rw [ready] at unready
    cases unready

theorem emitBytes_same (w : Surroundings) (frame : Frame) (s : RunChild) : (emitBytes w frame s).pending = s.pending ∧
    (emitBytes w frame s).stdoutEof = s.stdoutEof ∧ (emitBytes w frame s).readySeen = s.readySeen ∧
    (emitBytes w frame s).failure = s.failure := by
  unfold emitBytes
  split <;> exact ⟨rfl,rfl,rfl,rfl⟩

theorem joined_snoc (lines : List Bytes) (line : Bytes) : joined (lines ++ [line]) = joined lines ++ (line ++ [newline]) := by
  simp [joined]

theorem halted_none (going : s.halted = false) : s.failure = none ∧ s.exitRequested = none := by
  simpa [RunChild.halted] using going

theorem emitBytes_done (going : (emitBytes w frame s).halted = false) :
    emitBytes w frame s = {s with wire := s.wire ++ [⟨frame,frame.bytes.length⟩]} := by
  unfold emitBytes at going ⊢
  split at going
  · rfl
  · cases (halted_none going).2
  · cases (halted_none going).2

theorem forwarded_event (wire : List Emission) (line : Bytes) (k : Nat) :
    forwarded (wire ++ [⟨.event line,k⟩]) = forwarded wire ++ [line] := by
  simp [forwarded,forwardedLine]

theorem forwarded_control (wire : List Emission) (control : frame.control = true) (k : Nat) :
    forwarded (wire ++ [⟨frame,k⟩]) = forwarded wire := by
  cases frame <;> first | (cases control; done) | simp [forwarded,forwardedLine]

theorem halted_kept (halted : s.halted = true) : Splits total rest s := by
  intro going
  rw [halted] at going
  cases going

theorem takeLines_keeps (fuel : Nat) (wired : Wired w.hooks s) (splits : Splits total rest s) (enough : s.pending.length < fuel) :
    Wired w.hooks (takeLines w fuel s) ∧ Splits total rest (takeLines w fuel s) ∧
      ((takeLines w fuel s).halted = false → newline ∉ (takeLines w fuel s).pending) := by
  induction fuel generalizing s with
  | zero => omega
  | succ fuel ih =>
    have stops (failure : Code) (pending : Bytes) : Wired w.hooks {s with pending := pending,failure := some failure} ∧
        Splits total rest {s with pending := pending,failure := some failure} ∧
        (({s with pending := pending,failure := some failure} : RunChild).halted = false → newline ∉ pending) :=
      ⟨⟨wired.fine,wired.whole,wired.torn,wired.unready⟩,halted_kept rfl,fun going => (nomatch going)⟩
    rw [takeLines]
    split
    · rename_i halted
      exact ⟨wired,splits,fun going => by rw [halted] at going; cases going⟩
    · rename_i going
      have going := Bool.not_eq_true _ |>.mp going
      have quiet := (halted_none going).2
      have total_split := splits going
      split
      · rename_i none
        split
        · exact stops .resourceLimit s.pending
        · exact ⟨wired,splits,fun _ => Lines.nextLine_none none⟩
      · rename_i line pending next
        obtain ⟨clean,whole⟩ := Lines.nextLine_some next
        have fewer : pending.length < fuel := by
          have := congrArg List.length whole
          simp only [List.length_append,List.length_cons] at this
          omega
        split
        · exact stops .resourceLimit s.pending
        · split
          · rename_i ready
            split
            · exact stops .protocol pending
            · split
              · exact stops _ pending
              · rename_i fine
                have base : Wired w.hooks {s with pending := pending} := ⟨wired.fine,wired.whole,wired.torn,wired.unready⟩
                apply ih (emitBytes_wired base quiet (.event line) ⟨clean,fine⟩ rfl ready)
                · intro still
                  rw [emitBytes_done still,total_split]
                  simp only [RunChild.spoken,RunChild.unread,ready,if_true,forwarded_event]
                  rw [← List.cons_append,joined_snoc,whole]
                  simp
                · rw [(emitBytes_same ..).1]
                  exact fewer
          · rename_i unready
            have unready := Bool.not_eq_true _ |>.mp unready
            split
            · rename_i same
              have base : Wired w.hooks {s with pending := pending,readySeen := true} :=
                ⟨wired.fine,wired.whole,wired.torn,fun never => (nomatch never)⟩
              apply ih (emitBytes_wired base quiet .ready trivial rfl rfl)
              · intro still
                rw [emitBytes_done still,total_split]
                simp only [RunChild.spoken,RunChild.unread,unready,if_true,forwarded_control _ (rfl : Frame.ready.control = true)]
                rw [wired.unready unready,whole,same]
                simp [joined]
              · rw [(emitBytes_same ..).1]
                exact fewer
            · exact stops .protocol pending

-- What a run of the loop keeps.
structure Keeps (h : Hooks) (total : Bytes) (rest : List Read) (s : RunChild) : Prop where
  wired : Wired h s
  splits : Splits total rest s
  clean : s.halted = false → newline ∉ s.pending

theorem readStream_keeps (read : Read) (held : Keeps w.hooks total (read :: rest) s) :
    Keeps w.hooks total rest (readStream w s read) := by
  obtain ⟨wired,splits,clean⟩ := held
  unfold readStream
  split
  · rename_i halted
    exact ⟨wired,halted_kept halted,clean⟩
  · rename_i going
    have going := Bool.not_eq_true _ |>.mp going
    have split := splits going
    cases read with
    | stderr chunk =>
      have silent : s.unread (.stderr chunk :: rest) = s.unread rest := rfl
      rw [silent] at split
      cases chunk with
      | none => exact ⟨wired,fun _ => split,clean⟩
      | some size =>
        dsimp only
        split
        · exact ⟨wired,fun _ => split,clean⟩
        · split
          · exact ⟨⟨wired.fine,wired.whole,wired.torn,wired.unready⟩,fun _ => split,fun _ => clean going⟩
          · split
            · exact ⟨⟨wired.fine,wired.whole,wired.torn,wired.unready⟩,halted_kept rfl,fun still => (nomatch still)⟩
            · exact ⟨⟨wired.fine,wired.whole,wired.torn,wired.unready⟩,fun _ => split,fun _ => clean going⟩
    | stdout chunk =>
      cases chunk with
      | none => exact ⟨wired,fun _ => split,clean⟩
      | some chunk =>
        dsimp only
        split
        · rename_i closed
          refine ⟨wired,fun _ => ?_,clean⟩
          rw [split,RunChild.unread,RunChild.unread,if_pos closed,if_pos closed]
        · rename_i opened
          rw [RunChild.unread,if_neg opened,output] at split
          split
          · rename_i empty
            rw [if_pos empty] at split
            exact ⟨⟨wired.fine,wired.whole,wired.torn,wired.unready⟩,fun _ => split,fun _ => clean going⟩
          · rename_i some_bytes
            rw [if_neg some_bytes] at split
            have longer : Wired w.hooks {s with pending := s.pending ++ chunk} := ⟨wired.fine,wired.whole,wired.torn,wired.unready⟩
            have splits : Splits total rest {s with pending := s.pending ++ chunk} := by
              intro _
              rw [split,RunChild.unread,if_neg opened,List.append_assoc]
              rfl
            obtain ⟨wired,splits,clean⟩ := takeLines_keeps _ longer splits (Nat.lt_succ_self _)
            exact ⟨wired,splits,clean⟩

theorem reads_keep (reads : List Read) (held : Keeps w.hooks total (reads ++ rest) s) :
    Keeps w.hooks total rest (reads.foldl (readStream w) s) := by
  induction reads generalizing s with
  | nil => exact held
  | cons read reads ih => exact ih (readStream_keeps read held)

-- What an ending of the loop tells: a failure is returned with no write raised, and the
-- end is clean only once the child is done and all its lines are.
structure Ends (w : Surroundings) (total : Bytes) (ending : Ending) (s : RunChild) : Prop where
  quiet : ∀ failure, ending = .returned failure → s.exitRequested = none
  complete : ending = .returned none → w.status = 0 ∧ s.readySeen = true ∧ total = joined s.spoken

theorem Keeps.beat (held : Keeps w.hooks total rest s) (beating : s.readySeen = true) (going : s.halted = false) :
    Keeps w.hooks total rest (emitBytes w .ping s) := by
  refine ⟨emitBytes_wired held.wired (halted_none going).2 .ping trivial rfl beating,fun still => ?_,fun still => ?_⟩
  · rw [emitBytes_done still,held.splits going]
    simp only [RunChild.spoken,RunChild.unread,forwarded_control _ (rfl : Frame.ping.control = true)]
  · rw [(emitBytes_same ..).1]
    exact held.clean going

theorem turn_keeps {reads : List Read} (exited beat : Bool) (held : Keeps w.hooks total (reads ++ rest) s) :
    (∃ t, turn w reads exited beat s = (t,none) ∧ Keeps w.hooks total rest t) ∨
    ∃ t ending, turn w reads exited beat s = (t,some ending) ∧ Wired w.hooks t ∧ Ends w total ending t := by
  have held := reads_keep reads held
  unfold turn
  generalize reads.foldl (readStream w) s = t at held
  dsimp only
  split
  · exact .inr ⟨_,_,rfl,held.wired,fun _ same => (nomatch same),fun same => (nomatch same)⟩
  · rename_i quiet _
    exact .inr ⟨_,_,rfl,held.wired,fun _ _ => quiet,fun same => (nomatch same)⟩
  · rename_i quiet fine
    have going : t.halted = false := by simp [RunChild.halted,quiet,fine]
    split
    · have kept : Keeps w.hooks total rest (if t.readySeen && beat then emitBytes w .ping t else t) := by
        split
        · rename_i beating
          exact held.beat (Bool.and_eq_true _ _ |>.mp beating).1 going
        · exact held
      generalize (if t.readySeen && beat then emitBytes w .ping t else t) = u at kept
      cases raised : u.exitRequested with
      | none => exact .inl ⟨u,rfl,kept⟩
      | some signal => exact .inr ⟨u,.raised signal,rfl,kept.wired,fun _ same => (nomatch same),fun same => (nomatch same)⟩
    · split
      · exact .inl ⟨_,rfl,held⟩
      · rename_i closed
        split
        · exact .inr ⟨_,_,rfl,held.wired,fun _ _ => quiet,fun same => (nomatch same)⟩
        · rename_i empty
          split
          · exact .inr ⟨_,_,rfl,held.wired,fun _ _ => quiet,fun same => (nomatch same)⟩
          · rename_i status
            split
            · exact .inr ⟨_,_,rfl,held.wired,fun _ _ => quiet,fun same => (nomatch same)⟩
            · rename_i ready
              refine .inr ⟨_,_,rfl,held.wired,fun _ _ => quiet,fun _ => ⟨not_not.mp status,by simpa using ready,?_⟩⟩
              have ended : t.stdoutEof = true := by
                simp only [not_or,Bool.not_eq_false] at closed
                exact closed.1
              rw [held.splits going,not_not.mp empty,RunChild.unread,if_pos ended]
              simp

theorem runChild_keeps (turns : List Turn) (held : Keeps w.hooks total (turns.flatMap Turn.reads) s) :
    Wired w.hooks (runChild w turns s).1 ∧ Ends w total (runChild w turns s).2 (runChild w turns s).1 := by
  induction turns generalizing s with
  | nil => exact ⟨held.wired,fun _ same => (nomatch same),fun same => (nomatch same)⟩
  | cons next turns ih =>
    cases next with
    | raises signal => exact ⟨held.wired,fun _ same => (nomatch same),fun same => (nomatch same)⟩
    | select reads exited beat =>
      rw [runChild]
      rcases turn_keeps exited beat (show Keeps w.hooks total (reads ++ turns.flatMap Turn.reads) s from held) with ⟨t,same,kept⟩ | ⟨t,ending,same,wired,ends⟩
      · rw [same]
        exact ih kept
      · rw [same]
        exact ⟨wired,ends⟩

theorem start_keeps (w : Surroundings) (turns : List Turn) : Keeps w.hooks (written turns) (turns.flatMap Turn.reads) {} :=
  ⟨⟨fun _ inside => (nomatch inside),fun _ _ inside => (nomatch inside),fun raised => absurd rfl raised,fun _ => rfl⟩,
    fun _ => rfl,fun _ => List.not_mem_nil⟩

-- All frames are across but for a last one, or for one that an error frame follows.
def Shape (h : Hooks) (wire : List Emission) : Prop := ∃ early tail, wire = early ++ tail ∧
  (∀ e ∈ wire, Fine h e.frame) ∧ (∀ e ∈ early, e.whole) ∧
  (tail = [] ∨ (∃ e, tail = [e]) ∨ ∃ e code k, tail = [e,⟨.error code,k⟩])

theorem fine_snoc {wire : List Emission} (fine : ∀ e ∈ wire, Fine h e.frame) (last : Fine h e.frame) :
    ∀ f ∈ wire ++ [e], Fine h f.frame := by
  intro f inside
  rcases List.mem_append.mp inside with early | same
  · exact fine f early
  · rw [List.mem_singleton.mp same]
    exact last

theorem wired_shape (wired : Wired w.hooks s) : Shape w.hooks s.wire := by
  have fine : ∀ e ∈ s.wire, Fine w.hooks e.frame := fun e inside => (wired.fine e inside).1
  cases raised : s.exitRequested with
  | none => exact ⟨s.wire,[],by simp,fine,wired.whole raised,.inl rfl⟩
  | some signal =>
    obtain ⟨early,last,same,whole⟩ := wired.torn (by rw [raised]; simp)
    exact ⟨early,[last],same,fine,whole,.inr (.inl ⟨last,rfl⟩)⟩

theorem last_shape (wired : Wired w.hooks s) (quiet : s.exitRequested = none) (frame : Frame) (fine : Fine w.hooks frame) :
    Shape w.hooks (emitBytes w frame s).wire := by
  obtain ⟨k,same⟩ := emitBytes_wire w frame s
  rw [same]
  exact ⟨s.wire,[⟨frame,k⟩],rfl,fine_snoc (fun e inside => (wired.fine e inside).1) fine,wired.whole quiet,.inr (.inl ⟨_,rfl⟩)⟩

theorem error_shape (wired : Wired w.hooks s) (code : Code) : Shape w.hooks (emitBytes w (.error code) s).wire := by
  cases raised : s.exitRequested with
  | none => exact last_shape wired raised (.error code) trivial
  | some signal =>
    obtain ⟨k,same⟩ := emitBytes_wire w (.error code) s
    obtain ⟨early,last,torn,whole⟩ := wired.torn (by rw [raised]; simp)
    have fine := fine_snoc (e := ⟨.error code,k⟩) (fun e inside => (wired.fine e inside).1) (trivial : Fine w.hooks (.error code))
    rw [same]
    exact ⟨early,[last,⟨.error code,k⟩],by rw [torn,List.append_assoc]; rfl,fine,whole,.inr (.inr ⟨last,code,k,rfl⟩)⟩

theorem guarded_keeps (w : Surroundings) (args : List String) (data : Nat) (turns : List Turn) :
    Wired w.hooks (guarded w args data turns).1 ∧ Ends w (written turns) (guarded w args data turns).2 (guarded w args data turns).1 := by
  unfold guarded
  split
  · exact ⟨(start_keeps w turns).wired,fun _ _ => rfl,fun same => (nomatch same)⟩
  · exact runChild_keeps turns (start_keeps w turns)

theorem bootstrap_shape (w : Surroundings) (args : List String) (data : Nat) (turns : List Turn) (signalled : Bool) :
    Shape w.hooks (bootstrap w args data turns signalled) := by
  obtain ⟨wired,ends⟩ := guarded_keeps w args data turns
  unfold bootstrap
  generalize guarded w args data turns = ran at wired ends
  obtain ⟨s,ending⟩ := ran
  cases signalled with
  | true => exact wired_shape wired
  | false =>
    cases ending with
    | running => exact wired_shape wired
    | raised signal =>
      cases signal with
      | true => exact wired_shape wired
      | false => exact error_shape wired .remote
    | returned failure =>
      cases failure with
      | none => exact last_shape wired (ends.quiet _ rfl) .ended trivial
      | some code => exact last_shape wired (ends.quiet _ rfl) (.error code) trivial

theorem lines_joined (early : List Bytes) (clean : ∀ line ∈ early, newline ∉ line) (late : Bytes) :
    Lines.feed newline [] (joined early ++ late) = (early ++ (Lines.feed newline [] late).1,(Lines.feed newline [] late).2) := by
  induction early with
  | nil => rfl
  | cons line early ih =>
    have again := ih fun other inside => clean other (List.mem_cons_of_mem _ inside)
    have shape : joined (line :: early) ++ late = line ++ newline :: (joined early ++ late) := by simp [joined]
    rw [shape,Lines.feed_line [] line _ (clean line List.mem_cons_self),again]
    rfl

theorem wireBytes_whole (wire : List Emission) (whole : ∀ e ∈ wire, e.whole) :
    wireBytes wire = joined (wire.map (·.frame.line)) := by
  rw [wireBytes,joined,List.flatMap_map]
  apply List.flatMap_congr
  intro e inside
  rw [Emission.bytes,whole e inside,List.take_length]
  rfl

theorem wireLines_append (early : List Emission) (whole : ∀ e ∈ early, e.whole) (clean : ∀ e ∈ early, newline ∉ e.frame.line)
    (tail : List Emission) : wireLines (early ++ tail) = early.map (·.frame.line) ++ wireLines tail := by
  have bytes : wireBytes (early ++ tail) = joined (early.map (·.frame.line)) ++ wireBytes tail := by
    rw [← wireBytes_whole early whole]
    exact List.flatMap_append
  have fed := lines_joined (early.map (·.frame.line)) (by simpa using clean) (wireBytes tail)
  rw [wireLines,wireLines,bytes,Lines.lines,Lines.openRow,fed,List.append_assoc]
  rfl

theorem emission_bytes (e : Emission) : e.bytes = e.frame.line ++ [newline] ∨ ∃ piece, e.bytes = piece ∧ piece <+: e.frame.line := by
  rw [Emission.bytes,Frame.bytes]
  by_cases short : e.crossed ≤ e.frame.line.length
  · exact .inr ⟨_,List.take_append_of_le_length short,List.take_prefix ..⟩
  · exact .inl (List.take_of_length_le (by simp; omega))

-- The control frames of the wrapper, and what a receiver takes for one.
def controls (wire : List Emission) : List Bytes := (wire.filter (·.frame.control)).map (·.frame.line)

theorem controls_append (early late : List Emission) : controls (early ++ late) = controls early ++ controls late := by
  simp [controls]

theorem line_controls (depth : Nat) {e : Emission} (fine : Fine h e.frame) : ([e.frame.line].filter (isControl depth)).Sublist (controls [e]) := by
  cases control : e.frame.control with
  | true =>
    have same : controls [e] = [e.frame.line] := by simp [controls,control]
    rw [same]
    exact List.filter_sublist
  | false =>
    have plain : isControl depth e.frame.line = false := by
      cases same : e.frame with
      | event line =>
        rw [same] at fine
        exact event_plain fine.2
      | _ => rw [same] at control; cases control
    simp [plain]

theorem lines_controls (depth : Nat) (early : List Emission) (fine : ∀ e ∈ early, Fine h e.frame) :
    ((early.map (·.frame.line)).filter (isControl depth)).Sublist (controls early) := by
  induction early with
  | nil => exact List.Sublist.slnil
  | cons e early ih =>
    have later := ih fun f inside => fine f (List.mem_cons_of_mem _ inside)
    have first := line_controls depth (fine e List.mem_cons_self)
    have both := first.append later
    rwa [← List.filter_append,← controls_append] at both

theorem nil_controls (depth : Nat) (wire : List Emission) : ([([] : Bytes)].filter (isControl depth)).Sublist (controls wire) := by
  rw [List.filter_cons_of_neg (by rw [unread_plain rfl]; decide)]
  exact List.nil_sublist _

theorem piece_controls (depth : Nat) {e : Emission} (fine : Fine h e.frame) (begins : piece <+: e.frame.line) :
    ([piece].filter (isControl depth)).Sublist (controls [e]) := by
  by_cases whole : piece = e.frame.line
  · rw [whole]
    exact line_controls depth fine
  · rw [List.filter_cons_of_neg (by rw [piece_plain fine begins whole]; decide)]
    exact List.nil_sublist _

theorem single_controls (depth : Nat) {e : Emission} (fine : Fine h e.frame) : ((wireLines [e]).filter (isControl depth)).Sublist (controls [e]) := by
  have clean := fine_clean fine
  have bytes : wireBytes [e] = e.bytes := by simp [wireBytes]
  rw [wireLines,bytes,Lines.lines,Lines.openRow]
  rcases emission_bytes e with whole | ⟨piece,same,begins⟩
  · rw [whole,Lines.feed_line [] _ [] clean,List.filter_append]
    have both := (line_controls depth fine).append (nil_controls depth [])
    simpa [Lines.feed,controls] using both
  · rw [same,Lines.feed_open [] piece fun inside => clean (begins.subset inside)]
    exact piece_controls depth fine begins

-- An error frame behind a frame that was cut short.
theorem pair_controls (depth : Nat) {e : Emission} (fine : Fine h e.frame) (code : Code) (k : Nat) :
    ((wireLines [e,⟨.error code,k⟩]).filter (isControl depth)).Sublist (controls [e,⟨.error code,k⟩]) := by
  have clean := fine_clean fine
  have split : controls [e,⟨.error code,k⟩] = controls [e] ++ controls [⟨.error code,k⟩] := controls_append [e] [_]
  have bytes : wireBytes [e,⟨.error code,k⟩] = e.bytes ++ (⟨.error code,k⟩ : Emission).bytes := by simp [wireBytes]
  rcases emission_bytes e with whole | ⟨piece,same,begins⟩
  · have lines : wireLines [e,⟨.error code,k⟩] = [e.frame.line] ++ wireLines [⟨.error code,k⟩] := by
      have single : wireBytes [(⟨.error code,k⟩ : Emission)] = (⟨.error code,k⟩ : Emission).bytes := by simp [wireBytes]
      rw [wireLines,wireLines,bytes,single,whole,Lines.lines,Lines.openRow,List.append_assoc,List.singleton_append,
        Lines.feed_line [] _ _ clean]
      rfl
    rw [lines,List.filter_append,split]
    exact (line_controls depth fine).append (single_controls depth (show Fine h (⟨.error code,k⟩ : Emission).frame from trivial))
  · have cleanPiece : newline ∉ piece := fun inside => clean (begins.subset inside)
    rw [wireLines,bytes,same,Lines.lines,Lines.openRow]
    by_cases empty : piece = []
    · rw [empty,List.nil_append,split]
      have single := single_controls depth (show Fine h (⟨.error code,k⟩ : Emission).frame from trivial)
      have alone : wireBytes [(⟨.error code,k⟩ : Emission)] = (⟨.error code,k⟩ : Emission).bytes := by simp [wireBytes]
      rw [wireLines,alone] at single
      exact single.trans (List.sublist_append_right _ _)
    · have spliced (rest : Bytes) (more : rest <+: errorFrame code) (some_rest : rest ≠ []) :
          ([piece ++ rest].filter (isControl depth)) = [] := by
        rw [List.filter_cons_of_neg (by rw [splice_plain fine begins empty more some_rest]; decide)]
        rfl
      rcases emission_bytes ⟨.error code,k⟩ with whole | ⟨rest,cut,more⟩
      · have cleanError : newline ∉ piece ++ errorFrame code := by
          rw [List.mem_append,not_or]
          exact ⟨cleanPiece,fine_clean (show Fine h (.error code) from trivial)⟩
        rw [whole,Frame.line,← List.append_assoc,Lines.feed_line [] _ [] cleanError,List.filter_append]
        have gone := spliced (errorFrame code) (List.prefix_refl _) (by cases code <;> decide)
        change ([piece ++ errorFrame code].filter (isControl depth) ++ [([] : Bytes)].filter (isControl depth)).Sublist _
        rw [gone,List.nil_append]
        exact nil_controls depth _
      · have cleanRow : newline ∉ piece ++ rest := by
          rw [List.mem_append,not_or]
          exact ⟨cleanPiece,fun inside => fine_clean (show Fine h (.error code) from trivial) (more.subset inside)⟩
        rw [cut,Lines.feed_open [] _ cleanRow]
        change ([piece ++ rest].filter (isControl depth)).Sublist _
        by_cases silent : rest = []
        · rw [silent,List.append_nil,split]
          exact (piece_controls depth fine begins).trans (List.sublist_append_left _ _)
        · rw [spliced rest more silent]
          exact List.nil_sublist _

theorem shape_controls (depth : Nat) (shape : Shape h wire) : ((wireLines wire).filter (isControl depth)).Sublist (controls wire) := by
  obtain ⟨early,tail,rfl,fine,whole,ends⟩ := shape
  have fineEarly : ∀ e ∈ early, Fine h e.frame := fun e inside => fine e (List.mem_append_left _ inside)
  rw [wireLines_append early whole (fun e inside => fine_clean (fineEarly e inside)),List.filter_append,controls_append]
  apply (lines_controls depth early fineEarly).append
  rcases ends with rfl | ⟨e,rfl⟩ | ⟨e,code,k,rfl⟩
  · exact nil_controls depth []
  · exact single_controls depth (fine e (by simp))
  · exact pair_controls depth (fine e (by simp)) code k

theorem lines_output (lines : List Bytes) (clean : ∀ line ∈ lines, newline ∉ line) :
    Lines.lines newline (joined lines) = lines ∧ Lines.openRow newline (joined lines) = [] := by
  have fed := lines_joined lines clean []
  rw [List.append_nil] at fed
  rw [Lines.lines,Lines.openRow,fed]
  exact ⟨List.append_nil _,rfl⟩

theorem forwarded_clean (fine : ∀ e ∈ wire, Fine h e.frame) : ∀ line ∈ forwarded wire, newline ∉ line := by
  intro line inside
  obtain ⟨e,within,same⟩ := List.mem_filterMap.mp inside
  have good := fine e within
  unfold forwardedLine at same
  split at same
  · rename_i frame
    rw [frame] at good
    cases same
    exact good.1
  · cases same

theorem ended_complete (w : Surroundings) (args : List String) (data : Nat) (turns : List Turn) (signalled : Bool) (e : Emission)
    (inside : e ∈ bootstrap w args data turns signalled) (ended : e.frame = .ended) : w.status = 0 ∧
      ∃ before, bootstrap w args data turns signalled = before ++ [e] ∧ (∀ sent ∈ before, sent.whole) ∧
        Lines.lines newline (written turns) = internalReady :: forwarded before ∧ Lines.openRow newline (written turns) = [] := by
  obtain ⟨wired,ends⟩ := guarded_keeps w args data turns
  unfold bootstrap at inside ⊢
  generalize guarded w args data turns = ran at wired ends inside ⊢
  obtain ⟨s,ending⟩ := ran
  have early : ∀ f ∈ s.wire, f.frame ≠ .ended := by
    intro f within same
    have plain := (wired.fine f within).2
    rw [same] at plain
    cases plain
  have later (code : Code) (within : e ∈ (emitBytes w (.error code) s).wire) : False := by
    obtain ⟨k,same⟩ := emitBytes_wire w (.error code) s
    rw [same] at within
    rcases List.mem_append.mp within with before | last
    · exact early e before ended
    · rw [List.mem_singleton.mp last] at ended
      cases ended
  cases signalled with
  | true => exact absurd ended (early e inside)
  | false =>
    cases ending with
    | running => exact absurd ended (early e inside)
    | raised signal =>
      cases signal with
      | true => exact absurd ended (early e inside)
      | false => exact (later _ inside).elim
    | returned failure =>
      cases failure with
      | some code => exact (later _ inside).elim
      | none =>
        obtain ⟨status,ready,total⟩ := ends.complete rfl
        obtain ⟨k,same⟩ := emitBytes_wire w .ended s
        dsimp only at inside ⊢
        rw [same] at inside ⊢
        have last : e = ⟨.ended,k⟩ := by
          rcases List.mem_append.mp inside with before | last
          · exact absurd ended (early e before)
          · exact List.mem_singleton.mp last
        have clean : ∀ line ∈ s.spoken, newline ∉ line := by
          intro line within
          rw [RunChild.spoken,if_pos ready] at within
          rcases List.mem_cons.mp within with rfl | within
          · decide
          · exact forwarded_clean (fun f held => (wired.fine f held).1) line within
        obtain ⟨lines,row⟩ := lines_output s.spoken clean
        refine ⟨status,s.wire,by rw [last],wired.whole (ends.quiet _ rfl),?_,?_⟩
        · rw [total,lines,RunChild.spoken,if_pos ready]
        · rw [total,row]

-- Whatever the child writes, however it is cut into chunks and whatever becomes of the
-- writes: what a receiver takes for a control frame is one the wrapper has sent, in order;
-- and an end frame is sent only once the child was ready and exited with 0, behind each
-- complete line it wrote.
theorem wrapper_frames (w : Surroundings) (depth : Nat) (args : List String) (data : Nat) (turns : List Turn) (signalled : Bool) :
    ((wireLines (bootstrap w args data turns signalled)).filter (isControl depth)).Sublist
      (controls (bootstrap w args data turns signalled)) ∧
    (∀ e ∈ bootstrap w args data turns signalled, ∀ line, e.frame = .event line → isControl depth line = false) ∧
    (∀ e ∈ bootstrap w args data turns signalled, e.frame = .ended → w.status = 0 ∧
      ∃ before, bootstrap w args data turns signalled = before ++ [e] ∧ (∀ sent ∈ before, sent.whole) ∧
        Lines.lines newline (written turns) = internalReady :: forwarded before ∧
        Lines.openRow newline (written turns) = []) := by
  have shape := bootstrap_shape w args data turns signalled
  refine ⟨shape_controls depth shape,fun e inside line same => ?_,ended_complete w args data turns signalled⟩
  obtain ⟨_,_,_,fine,_⟩ := shape
  have good := fine e inside
  rw [same] at good
  exact event_plain good.2

end Proofs

def demoSurroundings : Surroundings := ⟨⟨100,fun _ => none⟩,fun _ => .done,0⟩

example : (bootstrap demoSurroundings ["watch","--all","--json"] 1
    [.select [.stdout (some internalReady)] false false,.select [.stdout (some [newline])] false true,
      .select [.stdout (some []),.stderr (some 0)] true false] false).map (·.frame.line) = [readyFrame,pingFrame,endFrame] := by
  rfl

end AgentSideCar.Wrapper
