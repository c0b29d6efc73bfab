import AgentSideCar.Send.AcpDialogue

namespace AgentSideCar.Acp
open Loads (Value Text str)
open Wrapper (get)
open Send (Snag Foreign AcpPhase PromptWriteBoundary DuplexProcessResult Effect Raised KimiAcpResult Exchange pushLine writeBoundary runKimiAcp finishAcp)
open Attempt (bound_ok)
open Program (Triple)

def snagOf {α : Type} : Except Snag α → Option Snag
  | .ok _ => none
  | .error snag => some snag

def spoken (t : Text) : String := String.ofList (t.map Char.ofNat)

def reasonText : Option Value → String
  | some (.text t) => spoken t
  | _ => ""

section Course
variable (d : Dialogue) (frame : List UInt8) (hook : Send.Run Unit)

-- The three parts of the exchange, each from where the one before it has left the link.
def afterSetup : Except Snag (List Read) × Link := setup d (begin d)

def afterPrompt : Except Snag (List Read) × Link :=
  match afterSetup d with
  | (.ok reads,s) => settlePrompt d reads s
  | (.error snag,s) => (.error snag,s)

def afterTrailing : Except Snag Unit × Link :=
  match afterPrompt d with
  | (.ok reads,s) => drainTrailing d reads s
  | (.error snag,s) => (.error snag,s)

def promptLine : Send.LineWrite := pushLine frame 0 d.polls

def promptAnswer : Write :=
  match d.unwritten,(promptLine d frame).raised with
  | some snag,_ => .raised snag
  | none,some snag => .raised snag
  | none,none => .boundary (writeBoundary (promptLine d frame).written (frame.length + 1))

def hookReturned : Bool := (afterSetup d).1.toBool && hook.outcome.toBool

-- The link where the exchange is broken off, or the child's output is at its end.
def reached : Link :=
  if hookReturned d hook then
    if promptAnswer d frame = .boundary .complete then (afterTrailing d).2 else (afterSetup d).2.sent (.call 5) (promptAnswer d frame)
  else (afterSetup d).2

-- How much of the prompt is recorded as written when the cleanup begins.
def promptWritten : PromptWriteBoundary :=
  if hookReturned d hook ∧ d.unwritten = none then writeBoundary (promptLine d frame).written (frame.length + 1) else .none

-- The child was waited for, and nothing of it is left.
def cleaned : Bool :=
  promptAnswer d frame = .boundary .complete && (afterTrailing d).1.toBool && d.waitClean.toOption.any DuplexProcessResult.cleanupComplete

-- The link when it is over: _bounded_cleanup cancels a prompt of which bytes have crossed, and
-- goes on whatever comes of that.
def last : Link :=
  if promptWritten d frame hook = .none ∨ cleaned d frame then reached d frame hook else (write d .sessionCancel (reached d frame hook)).2

def exchange : Exchange where
  setup := ((afterSetup d).2.phase,snagOf (afterSetup d).1)
  unwritten := d.unwritten
  polls := d.polls
  settled := match (afterPrompt d).1 with
    | .ok _ => .ok (reasonText (reached d frame hook).stopReason)
    | .error snag => .error snag
  trailing := match (afterTrailing d).1 with
    | .ok _ => snagOf d.waitClean
    | .error snag => some snag
  waited := d.waitClean.toOption.getD ⟨none,false,false⟩
  cleanup := d.cleanup
  observed := d.observed
  responseText := spoken (reached d frame hook).responseParts.flatten

end Course

section Told
variable {d : Dialogue} {frame : List UInt8} {hook : Send.Run Unit} {n : Nat} {waits : Bool} {t : List Event} {s : Link}

theorem legal_unstopped (legal : Legal d t n waits) (open' : n < 5) : stops t = [] := by
  induction legal with
  | start => rfl
  | call _ _ ih => rw [stops_sent,ih open']
  | update _ _ update ih =>
    rw [stops_heard,ih open',stop_call (callFine_method update.shape)]
    rfl
  | permission _ _ permission _ ih =>
    rw [List.append_cons,stops_sent,stops_heard,ih open',stop_call (callFine_method permission.shape)]
    rfl
  | answer _ responds _ ih =>
    rw [stops_heard,ih (Nat.lt_of_succ_lt open'),stop_other]
    · rfl
    · rw [responds.id]
      intro same
      cases same
      omega

theorem afterSetup_follows (ok : (afterSetup d).1 = .ok reads) : Follows d 4 false (afterSetup d).2 :=
  setup_follows.answered begin_follows (Prod.ext ok rfl)

theorem afterSetup_broken (error : (afterSetup d).1 = .error snag) : ∃ n, n < 4 ∧ Broken d n (afterSetup d).2 :=
  setup_follows.raised begin_follows (Prod.ext error rfl)

theorem afterPrompt_run (ok : (afterSetup d).1 = .ok reads) : afterPrompt d = settlePrompt d reads (afterSetup d).2 := by
  unfold afterPrompt
  rw [show afterSetup d = (.ok reads,(afterSetup d).2) from Prod.ext ok rfl]

theorem afterPrompt_follows (ok : (afterSetup d).1 = .ok reads) (settled : (afterPrompt d).1 = .ok rest) : Follows d 5 false (afterPrompt d).2 := by
  rw [afterPrompt_run ok] at settled ⊢
  exact (settlePrompt_follows reads).answered (afterSetup_follows ok) (Prod.ext settled rfl)

theorem afterPrompt_broke (ok : (afterSetup d).1 = .ok reads) (error : (afterPrompt d).1 = .error snag) : Broke d 4 true (afterPrompt d).2 := by
  rw [afterPrompt_run ok] at error ⊢
  exact (settlePrompt_follows reads).raised (afterSetup_follows ok) (Prod.ext error rfl)

theorem afterTrailing_run (settled : (afterPrompt d).1 = .ok rest) : afterTrailing d = drainTrailing d rest (afterPrompt d).2 := by
  unfold afterTrailing
  rw [show afterPrompt d = (.ok rest,(afterPrompt d).2) from Prod.ext settled rfl]

theorem afterTrailing_stuck (error : (afterPrompt d).1 = .error snag) : afterTrailing d = (.error snag,(afterPrompt d).2) := by
  unfold afterTrailing
  rw [show afterPrompt d = (.error snag,(afterPrompt d).2) from Prod.ext error rfl]

-- What is written when all is over: the prompt is cancelled once, if bytes of it have crossed and
-- the child was not seen to be gone, and nothing otherwise.
inductive Closes (d : Dialogue) (frame : List UInt8) (promptWrite : PromptWriteBoundary) : List Event → Prop where
  | nothing (settled : promptWrite = .none ∨ cleaned d frame = true ∨ (encodeFrame d .sessionCancel).toOption = none) : Closes d frame promptWrite []
  | cancel (crossed : promptWrite ≠ .none) (unclean : cleaned d frame = false) (answer : Write) :
      Closes d frame promptWrite [.sent .sessionCancel answer]

theorem last_closes (d : Dialogue) (frame : List UInt8) (hook : Send.Run Unit) :
    ∃ ends, (last d frame hook).transcript = (reached d frame hook).transcript ++ ends ∧ Closes d frame (promptWritten d frame hook) ends := by
  unfold last
  split
  · rename_i settled
    exact ⟨[],(List.append_nil _).symm,.nothing (settled.imp_right .inl)⟩
  · rename_i open'
    obtain ⟨crossed,unclean⟩ := not_or.mp open'
    have unclean : cleaned d frame = false := by simpa using unclean
    unfold write
    cases encoded : encodeFrame d .sessionCancel with
    | error snag =>
      refine ⟨[],(List.append_nil _).symm,.nothing (.inr (.inr ?_))⟩
      rw [encoded]
      rfl
    | ok payload => exact ⟨_,rfl,.cancel crossed unclean _⟩

-- What the result says of the exchange it is the result of.
structure Told (d : Dialogue) (frame : List UInt8) (hook : Send.Run Unit) (result : KimiAcpResult)
    (n : Nat) (waits : Bool) (t tail ends : List Event) : Prop where
  transcript : (last d frame hook).transcript = t ++ tail ++ ends
  legal : Legal d t n waits
  breaks : Breaks n tail
  closes : Closes d frame result.promptWrite ends
  response : result.responseText = spoken (parts d t).flatten
  within : ((parts d t).map encodedLength).sum ≤ assistantBytes
  phase : result.phase = phaseAt n ∨ (n = 4 ∧ result.phase = .promptWritten ∧ result.promptWrite = .complete)
  stop : result.stopReason = (stops t).getLast?.map fun reason => reasonText (some reason)
  prompted : result.promptWrite ≠ .none → 4 ≤ n ∧ hook.outcome = .ok ()
  done : result.errorCode = none → n = 5 ∧ tail = [] ∧ ends = [] ∧ ∃ waited, d.waitClean = .ok waited ∧ waited.returncode = some 0 ∧
    waited.cleanExit = true ∧ waited.cleanupComplete = true

structure Finished (x : Exchange) (phase : AcpPhase) (promptWrite : PromptWriteBoundary) (stopReason : Option String) (snag : Option Snag)
    (result : KimiAcpResult) : Prop where
  phase : result.phase = phase
  promptWrite : result.promptWrite = promptWrite
  stop : result.stopReason = stopReason
  response : result.responseText = x.responseText
  clean : result.errorCode = none → snag = none ∧ (stopReason.isSome = true →
    x.waited.returncode = some 0 ∧ x.waited.cleanExit = true ∧ x.waited.cleanupComplete = true)

theorem finishAcp_finished {x : Exchange} {phase : AcpPhase} {promptWrite : PromptWriteBoundary} {stopReason : Option String}
    {snag : Option Snag} (ended : (finishAcp x phase promptWrite stopReason snag).outcome = .ok result) :
    Finished x phase promptWrite stopReason snag result := by
  unfold finishAcp at ended
  split at ended
  · cases ended
  · cases ended
  · cases ended
    refine ⟨rfl,rfl,rfl,rfl,?_⟩
    intro none'
    simp only at none'
    split at none'
    · cases none'
    · split at none'
      · rename_i settled
        split at none'
        · cases none'
        · rename_i complete
          split at none'
          · cases none'
          · rename_i exited
            obtain ⟨zero,clean⟩ := not_or.mp exited
            exact ⟨settled.1,fun _ => ⟨by simpa using zero,by simpa using clean,by simpa using complete⟩⟩
      · rename_i unsettled
        have quiet := Option.map_eq_none_iff.mp none'
        exact ⟨quiet,fun some' => absurd ⟨quiet,some'⟩ unsettled⟩

theorem legal_stopped (legal : Legal d t 5 waits) : ∃ reason, (stops t).getLast? = some reason := by
  generalize five : 5 = n at legal
  induction legal with
  | start => cases five
  | call _ more _ => omega
  | update _ _ update ih =>
    rw [stops_heard,stop_call (callFine_method update.shape),Option.toList_none,List.append_nil]
    exact ih five
  | permission _ _ permission _ ih =>
    rw [List.append_cons,stops_sent,stops_heard,stop_call (callFine_method permission.shape),Option.toList_none,List.append_nil]
    exact ih five
  | @answer t n e _ responds accepted _ =>
    cases Nat.succ.inj five
    change (promptResult e).map (fun _ => ()) = .ok () at accepted
    cases result : promptResult e with
    | error snag =>
      rw [result] at accepted
      cases accepted
    | ok reason =>
      have stopped : Event.stop (.heard e) = some reason := by
        rw [Event.stop,responds.id,result]
        rfl
      refine ⟨reason,?_⟩
      rw [stops_heard,stopped]
      exact List.getLast?_concat

theorem told_broke (broke : Broke d n waits (reached d frame hook)) {phase : AcpPhase} {promptWrite : PromptWriteBoundary}
    {stopReason : Option String} {snag : Snag} (finished : Finished (exchange d frame hook) phase promptWrite stopReason (some snag) result)
    (inPhase : phase = phaseAt n ∨ (n = 4 ∧ phase = .promptWritten ∧ promptWrite = .complete))
    (stop : stopReason = (reached d frame hook).stopReason.map fun reason => reasonText (some reason))
    (prompted : promptWrite ≠ .none → 4 ≤ n ∧ hook.outcome = .ok ()) (written : promptWritten d frame hook = promptWrite) :
    ∃ n waits t tail ends, Told d frame hook result n waits t tail ends := by
  obtain ⟨t,tail,cut,accounts,breaks⟩ := broke
  obtain ⟨ends,grown,closes⟩ := last_closes d frame hook
  rw [cut] at grown
  rw [written,← finished.promptWrite] at closes
  refine ⟨n,waits,t,tail,ends,grown,accounts.legal,breaks,closes,?_,?_,?_,?_,?_,?_⟩
  · rw [finished.response,← accounts.parts]
    rfl
  · rw [← accounts.parts,← accounts.bytes]
    exact accounts.within
  · rw [finished.phase,finished.promptWrite]
    exact inPhase
  · rw [finished.stop,stop,accounts.stop]
  · rw [finished.promptWrite]
    exact prompted
  · intro none'
    cases (finished.clean none').1

theorem broke_unstopped (broke : Broke d n waits s) (open' : n < 5) : s.stopReason = none := by
  obtain ⟨t,tail,_,accounts,_⟩ := broke
  rw [accounts.stop,legal_unstopped accounts.legal open']
  rfl

theorem broke_phase (broke : Broke d n waits s) : s.phase = phaseAt n := by
  obtain ⟨t,tail,_,accounts,_⟩ := broke
  exact accounts.phase

theorem reached_unsent (ok : (afterSetup d).1 = .ok reads) (returned : hook.outcome = .ok ()) (short : promptAnswer d frame ≠ .boundary .complete) :
    Broken d 4 (reached d frame hook) := by
  have both : hookReturned d hook = true := by
    rw [hookReturned,ok,returned]
    rfl
  rw [reached,if_pos both,if_neg short]
  exact unsent_broken (afterSetup_follows ok) short

theorem reached_sent (ok : (afterSetup d).1 = .ok reads) (returned : hook.outcome = .ok ()) (complete : promptAnswer d frame = .boundary .complete) :
    reached d frame hook = (afterTrailing d).2 := by
  have both : hookReturned d hook = true := by
    rw [hookReturned,ok,returned]
    rfl
  rw [reached,if_pos both,if_pos complete]

theorem reached_before (unready : hookReturned d hook = false) : reached d frame hook = (afterSetup d).2 := by
  rw [reached,unready]
  rfl

theorem promptWritten_unready (unready : hookReturned d hook = false) : promptWritten d frame hook = .none := by
  rw [promptWritten,unready]
  rfl

theorem promptWritten_unwritten (unwritten : d.unwritten = some snag) : promptWritten d frame hook = .none := by
  rw [promptWritten,unwritten]
  exact if_neg fun both => nomatch both.2

theorem promptWritten_line (ok : (afterSetup d).1 = .ok reads) (returned : hook.outcome = .ok ()) (unwritten : d.unwritten = none) :
    promptWritten d frame hook = writeBoundary (promptLine d frame).written (frame.length + 1) := by
  rw [promptWritten,hookReturned,ok,returned]
  exact if_pos ⟨rfl,unwritten⟩

theorem unsent_told (ok : (afterSetup d).1 = .ok reads) (returned : hook.outcome = .ok ()) (short : promptAnswer d frame ≠ .boundary .complete)
    {phase : AcpPhase} {promptWrite : PromptWriteBoundary} {snag : Snag}
    (inPhase : phase = .modeSet ∨ (phase = .promptWritten ∧ promptWrite = .complete))
    (written : promptWritten d frame hook = promptWrite)
    (finished : Finished (exchange d frame hook) phase promptWrite none (some snag) result) :
    ∃ n waits t tail ends, Told d frame hook result n waits t tail ends := by
  have broken := reached_unsent ok returned short
  obtain ⟨waits,broke⟩ := broken
  refine told_broke broke finished ?_ ?_ (fun _ => ⟨Nat.le_refl 4,returned⟩) written
  · rcases inPhase with modeSet | ⟨written,complete⟩
    · exact .inl modeSet
    · exact .inr ⟨rfl,written,complete⟩
  · rw [broke_unstopped broke (by decide)]
    rfl

theorem trailed_told (returned : hook.outcome = .ok ()) (over' : reached d frame hook = (afterTrailing d).2)
    (written : promptWritten d frame hook = .complete) (follows : Follows d 5 false (afterPrompt d).2) (settled : (afterPrompt d).1 = .ok rest)
    (trailing : (afterTrailing d).1 = .error snag)
    (finished : Finished (exchange d frame hook) .promptSettled .complete (some (reasonText (reached d frame hook).stopReason)) (some snag)
      result) : ∃ n waits t tail ends, Told d frame hook result n waits t tail ends := by
  have broke : Broke d 5 false (reached d frame hook) := by
    rw [over',afterTrailing_run settled]
    rw [afterTrailing_run settled] at trailing
    exact (drainTrailing_follows rest).raised follows (Prod.ext trailing rfl)
  refine told_broke broke finished (.inl rfl) ?_ (fun _ => ⟨by decide,returned⟩) written
  obtain ⟨t,_,_,accounts,_⟩ := broke
  obtain ⟨reason,stopped⟩ := legal_stopped accounts.legal
  rw [accounts.stop,stopped]
  rfl

theorem waited_clean (finished : Finished (exchange d frame hook) phase promptWrite (some reason) (snagOf d.waitClean) result)
    (none' : result.errorCode = none) : ∃ waited, d.waitClean = .ok waited ∧ waited.returncode = some 0 ∧
    waited.cleanExit = true ∧ waited.cleanupComplete = true := by
  obtain ⟨quiet,exited⟩ := finished.clean none'
  have exited := exited rfl
  cases clean : d.waitClean with
  | error snag =>
    rw [clean] at quiet
    cases quiet
  | ok process =>
    have same : (exchange d frame hook).waited = process := by
      rw [exchange,clean]
      rfl
    rw [same] at exited
    exact ⟨process,rfl,exited⟩

theorem drained_told (returned : hook.outcome = .ok ()) (over' : reached d frame hook = (afterTrailing d).2)
    (complete : promptAnswer d frame = .boundary .complete) (written : promptWritten d frame hook = .complete)
    (follows : Follows d 5 false (afterPrompt d).2) (settled : (afterPrompt d).1 = .ok rest) (trailing : (afterTrailing d).1 = .ok done)
    (finished : Finished (exchange d frame hook) .promptSettled .complete (some (reasonText (reached d frame hook).stopReason))
      (snagOf d.waitClean) result) : ∃ n waits t tail ends, Told d frame hook result n waits t tail ends := by
  have follows : Follows d 5 false (reached d frame hook) := by
    rw [over',afterTrailing_run settled]
    have trailing := trailing
    rw [afterTrailing_run settled] at trailing
    exact (drainTrailing_follows rest).answered follows (Prod.ext trailing rfl)
  have accounts := follows.accounts
  obtain ⟨reason,stopped⟩ := legal_stopped accounts.legal
  obtain ⟨ends,grown,closes⟩ := last_closes d frame hook
  rw [written,← finished.promptWrite] at closes
  have grown := grown.trans (congrArg (· ++ ends) (List.append_nil _).symm)
  refine ⟨5,false,_,[],ends,grown,accounts.legal,.nothing,closes,?_,?_,.inl finished.phase,?_,fun _ => ⟨by decide,returned⟩,?_⟩
  · rw [finished.response,← accounts.parts]
    rfl
  · rw [← accounts.parts,← accounts.bytes]
    exact accounts.within
  · rw [finished.stop,accounts.stop,stopped]
    rfl
  · intro none'
    obtain ⟨process,clean,exited⟩ := waited_clean finished none'
    have gone : cleaned d frame = true := by
      rw [cleaned,complete,trailing,clean]
      exact exited.2.2
    cases closes with
    | nothing _ => exact ⟨rfl,rfl,rfl,process,clean,exited⟩
    | cancel _ unclean _ =>
      rw [gone] at unclean
      cases unclean

theorem readResponse_told (ok : (afterSetup d).1 = .ok reads) (returned : hook.outcome = .ok ()) (complete : promptAnswer d frame = .boundary .complete)
    (written : promptWritten d frame hook = .complete)
    (ended : (Send.readResponse (exchange d frame hook)).outcome = .ok result) : ∃ n waits t tail ends, Told d frame hook result n waits t tail ends := by
  have over' := reached_sent ok returned complete
  unfold Send.readResponse at ended
  cases prompt : (afterPrompt d).1 with
  | error snag =>
    have settled : (exchange d frame hook).settled = .error snag := by
      rw [exchange,prompt]
    rw [settled] at ended
    have broke := afterPrompt_broke ok prompt
    have stuck : reached d frame hook = (afterPrompt d).2 := by
      rw [over',afterTrailing_stuck prompt]
    rw [← stuck] at broke
    refine told_broke broke (finishAcp_finished ended) (.inr ⟨rfl,rfl,rfl⟩) ?_ (fun _ => ⟨Nat.le_refl 4,returned⟩) written
    rw [broke_unstopped broke (by decide)]
    rfl
  | ok rest =>
    have follows := afterPrompt_follows ok prompt
    have settled : (exchange d frame hook).settled = .ok (reasonText (reached d frame hook).stopReason) := by
      rw [exchange,prompt]
    rw [settled] at ended
    have finished := finishAcp_finished ended
    have parted : (exchange d frame hook).trailing = match (afterTrailing d).1 with
      | .ok _ => snagOf d.waitClean
      | .error snag => some snag := rfl
    rw [parted] at finished
    cases trailing : (afterTrailing d).1 with
    | error snag =>
      rw [trailing] at finished
      exact trailed_told returned over' written follows prompt trailing finished
    | ok _ =>
      rw [trailing] at finished
      exact drained_told returned over' complete written follows prompt trailing finished

theorem crossing_outcome (bytes : List UInt8) (rest : Unit → Send.Run KimiAcpResult) :
    ((Send.crossing bytes).bind rest).outcome = (rest ()).outcome := by
  unfold Send.crossing
  split <;> rfl

theorem raised_short (unwritten : d.unwritten = none) (raised : (promptLine d frame).raised = some snag) :
    promptAnswer d frame ≠ .boundary .complete := by
  rw [promptAnswer,unwritten,raised]
  exact nofun

theorem promptAnswer_clear (unwritten : d.unwritten = none) (clear : (promptLine d frame).raised = none) :
    promptAnswer d frame = .boundary (writeBoundary (promptLine d frame).written (frame.length + 1)) := by
  rw [promptAnswer,unwritten,clear]

theorem writePrompt_told (ok : (afterSetup d).1 = .ok reads) (returned : hook.outcome = .ok ())
    (ended : (Send.writePrompt (exchange d frame hook) frame).outcome = .ok result) : ∃ n waits t tail ends, Told d frame hook result n waits t tail ends := by
  unfold Send.writePrompt at ended
  cases unwritten : d.unwritten with
  | some snag =>
    have short : promptAnswer d frame ≠ .boundary .complete := by
      rw [promptAnswer,unwritten]
      exact nofun
    rw [show (exchange d frame hook).unwritten = some snag from unwritten] at ended
    exact unsent_told ok returned short (.inl rfl) (promptWritten_unwritten unwritten) (finishAcp_finished ended)
  | none =>
    have written : promptWritten d frame hook = _ := promptWritten_line ok returned unwritten
    rw [show (exchange d frame hook).unwritten = none from unwritten] at ended
    simp only [crossing_outcome] at ended
    split at ended
    · rename_i raised complete
      exact unsent_told ok returned (raised_short unwritten raised) (.inr ⟨rfl,rfl⟩) (written.trans complete) (finishAcp_finished ended)
    · rename_i raised _
      exact unsent_told ok returned (raised_short unwritten raised) (.inl rfl) written (finishAcp_finished ended)
    · rename_i clear complete
      have whole := (promptAnswer_clear unwritten clear).trans (congrArg Write.boundary complete)
      exact readResponse_told ok returned whole (written.trans complete) ended
    · rename_i clear short
      have short' : promptAnswer d frame ≠ .boundary .complete := by
        rw [promptAnswer_clear unwritten clear]
        exact fun complete => short (Write.boundary.inj complete)
      exact unsent_told ok returned short' (.inl rfl) written (finishAcp_finished ended)

theorem unready_told (unready : hookReturned d hook = false) (broke : Broke d n waits (afterSetup d).2) (early : n < 5)
    (finished : Finished (exchange d frame hook) (phaseAt n) .none none (some snag) result) :
    ∃ n waits t tail ends, Told d frame hook result n waits t tail ends := by
  have silent := broke_unstopped broke early
  have before : reached d frame hook = (afterSetup d).2 := reached_before unready
  rw [← before] at broke silent
  refine told_broke broke finished (.inl rfl) ?_ (fun prompted => absurd rfl prompted) (promptWritten_unready unready)
  rw [silent]
  rfl

-- Whatever the child does, what was written and heard follows the protocol up to where it was broken
-- off, where at most the prompt is cancelled; the result says how far it went, what was heard, and
-- that it went well only if it did.
theorem runKimiAcp_told (ended : (runKimiAcp (exchange d frame hook) frame hook).outcome = .ok result) :
    ∃ n waits t tail ends, Told d frame hook result n waits t tail ends := by
  unfold runKimiAcp at ended
  cases ok : (afterSetup d).1 with
  | error snag =>
    have setup' : (exchange d frame hook).setup = ((afterSetup d).2.phase,some snag) := by
      rw [exchange,ok]
      rfl
    rw [setup'] at ended
    have unready : hookReturned d hook = false := by
      rw [hookReturned,ok]
      rfl
    obtain ⟨n,early,waits,broke⟩ := afterSetup_broken ok
    have finished := finishAcp_finished ended
    rw [broke_phase broke] at finished
    exact unready_told unready broke (Nat.lt_succ_of_lt early) finished
  | ok reads =>
    have setup' : (exchange d frame hook).setup = ((afterSetup d).2.phase,none) := by
      rw [exchange,ok]
      rfl
    rw [setup'] at ended
    simp only [Traced.attempt] at ended
    cases returned : hook.outcome with
    | error e =>
      rw [returned] at ended
      simp only at ended
      have unready : hookReturned d hook = false := by
        rw [hookReturned,ok,returned]
        rfl
      split at ended
      · exact unready_told unready (follows_broke (afterSetup_follows ok)) (by decide) (finishAcp_finished ended)
      · cases ended
    | ok _ =>
      rw [returned] at ended
      exact writePrompt_told ok returned ended

-- One session in the root, one chunk of two letters, and an end.
def demoReads : List Read := [
  .line (Wrapper.ascii "\x7b\"jsonrpc\":\"2.0\",\"id\":1,\"result\":\x7b\"protocolVersion\":1,\"agentCapabilities\":\x7b\"loadSession\":true,\"sessionCapabilities\":\x7b\"list\":\x7b\x7d,\"resume\":\x7b\x7d\x7d\x7d\x7d\x7d"),
  .line (Wrapper.ascii "\x7b\"jsonrpc\":\"2.0\",\"id\":2,\"result\":\x7b\"sessions\":[\x7b\"sessionId\":\"s\",\"cwd\":\"/\"\x7d]\x7d\x7d"),
  .line (Wrapper.ascii "\x7b\"jsonrpc\":\"2.0\",\"id\":3,\"result\":\x7b\x7d\x7d"),
  .line (Wrapper.ascii "\x7b\"jsonrpc\":\"2.0\",\"id\":4,\"result\":\x7b\x7d\x7d"),
  .line (Wrapper.ascii "\x7b\"jsonrpc\":\"2.0\",\"method\":\"session/update\",\"params\":\x7b\"sessionId\":\"s\",\"update\":\x7b\"sessionUpdate\":\"agent_message_chunk\",\"content\":\x7b\"type\":\"text\",\"text\":\"hi\"\x7d\x7d\x7d\x7d"),
  .line (Wrapper.ascii "\x7b\"jsonrpc\":\"2.0\",\"id\":5,\"result\":\x7b\"stopReason\":\"end_turn\"\x7d\x7d"),
  .eof]

def demo : Dialogue where
  request := ⟨str "/",str "s",str "r",str "m"⟩
  version := str "1"
  depth := 100
  validateSessionCwd := fun cwd => .ok (cwd = str "/")
  spawned := none
  reads := demoReads
  writes := List.replicate 4 (.boundary .complete)
  unwritten := none
  polls := List.replicate 2 (.wrote 65536 none)
  waitClean := .ok ⟨some 0,true,true⟩
  cleanup := none
  observed := some ⟨some 0,true,true⟩

def demoFrame : List UInt8 := (preparePromptFrame demo).getD []
def demoRun : Send.Run KimiAcpResult := runKimiAcp (exchange demo demoFrame (.done ())) demoFrame (.done ())

def brief (result : KimiAcpResult) : String × Option String × Option String × PromptWriteBoundary :=
  (result.responseText,result.stopReason,result.errorCode,result.promptWrite)

-- The texts are taken as lists of characters before the run is computed.
theorem demoRun_ran : demoRun.outcome.toOption.map brief = some ("hi",some "end_turn",none,.complete) ∧
    Effect.prompt (demoFrame ++ [Send.newline]) ∈ demoRun.trace := by
  unfold demoRun demoFrame demo demoReads Wrapper.ascii
  repeat rw [String.toList_ofList]
  decide +kernel

theorem demoRun_ended : ∃ result, demoRun.outcome = .ok result ∧ brief result = ("hi",some "end_turn",none,.complete) := by
  have brief' := demoRun_ran.1
  cases ended : demoRun.outcome with
  | ok result =>
    rw [ended] at brief'
    exact ⟨result,rfl,Option.some.inj brief'⟩
  | error e =>
    rw [ended] at brief'
    cases brief'

theorem demo_told : ∃ result n waits t tail ends, demoRun.outcome = .ok result ∧ brief result = ("hi",some "end_turn",none,.complete) ∧
    Told demo demoFrame (.done ()) result n waits t tail ends := by
  obtain ⟨result,ended,own⟩ := demoRun_ended
  obtain ⟨n,waits,t,tail,ends,told⟩ := runKimiAcp_told ended
  exact ⟨result,n,waits,t,tail,ends,ended,own,told⟩

end Told
end AgentSideCar.Acp
