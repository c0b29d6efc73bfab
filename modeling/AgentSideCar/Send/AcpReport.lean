import AgentSideCar.Send.AcpSteps

namespace AgentSideCar.Acp
open Loads (Value Text)
open Wrapper (get)
open Send (Snag Foreign KimiAcpResult pushLine runKimiAcp finishAcp)
open Program (Triple)

-- The fields of KimiAcpResult that say whose turn it was.
structure Report where
  result : KimiAcpResult
  ownTurnStarted : Bool
  definitiveBusyRejection : Bool

section Report
variable (d : Dialogue) (frame : List UInt8) (hook : Send.Run Unit) (confirmNoOwnPrompt : Option (Except Foreign Bool))

-- The failure is the one that consume alone marks as busy.
def busyResponse : Bool :=
  hookReturned d hook && promptAnswer d frame = .boundary .complete && snagOf (afterPrompt d).1 = some (.driver "session_busy")

def reported (definitive : Bool) : Send.Run Report :=
  (runKimiAcp (exchange d frame hook) frame hook).bind fun result =>
    .done ⟨result,(reached d frame hook).ownTurnStarted,definitive⟩

-- An interrupt of the callback goes on after the clean-up; what else it raises is no confirmation.
def report : Send.Run Report :=
  if busyResponse d frame hook then match confirmNoOwnPrompt with
    | none => reported d frame hook false
    | some (.ok confirmed) => reported d frame hook confirmed
    | some (.error e) =>
      if e.isException then reported d frame hook false
      else ⟨(runKimiAcp (exchange d frame hook) frame hook).trace,.error (.foreign e)⟩
  else reported d frame hook false

end Report

section Once
variable {d : Dialogue} {frame : List UInt8} {hook : Send.Run Unit}

def onlyLine (bytes : List UInt8) : List (List UInt8) := if bytes = [] then [] else [bytes]

theorem crossing_only {bytes : List UInt8} {rest : Unit → Send.Run KimiAcpResult} (quiet : (rest ()).Quiet Crosses) :
    prompted ((Send.crossing bytes).bind rest).trace = onlyLine bytes := by
  by_cases none' : bytes = []
  · rw [onlyLine,if_pos none',none']
    exact quiet_unprompted quiet
  · rw [onlyLine,if_neg none']
    exact crossing_prompted none' quiet

-- At most one write of the prompt, of the beginning of its line, and the result says how much it was.
structure Once (frame : List UInt8) (run : Send.Run KimiAcpResult) (bytes : List UInt8) : Prop where
  begins : bytes <+: frame ++ [Send.newline]
  only : prompted run.trace = onlyLine bytes
  reported : ∀ result, run.outcome = .ok result → result.promptWrite = Send.writeBoundary bytes.length (frame.length + 1)

theorem once_quiet {run : Send.Run KimiAcpResult} (quiet : run.Quiet Crosses)
    (none' : ∀ result, run.outcome = .ok result → result.promptWrite = .none) : Once frame run [] :=
  ⟨List.nil_prefix,quiet_unprompted quiet,none'⟩

theorem finishAcp_once {x : Send.Exchange} {phase : Send.AcpPhase} {stopReason : Option String} {snag : Option Snag} :
    Once frame (finishAcp x phase .none stopReason snag) [] := once_quiet finishAcp_crosses fun _ ended => (Send.finishAcp_reports ended).1

theorem writePrompt_once (x : Send.Exchange) (frame : List UInt8) : ∃ bytes, Once frame (Send.writePrompt x frame) bytes := by
  unfold Send.writePrompt
  split
  · exact ⟨[],finishAcp_once⟩
  · refine ⟨(pushLine frame 0 x.polls).crossed,pushLine_begins frame x.polls 0,?_,?_⟩
    · apply crossing_only
      split
      · exact finishAcp_crosses
      · exact finishAcp_crosses
      · exact readResponse_crosses
      · exact finishAcp_crosses
    · intro result ended
      simp only [crossing_outcome] at ended
      have counts := Send.pushLine_counts frame x.polls 0
      rw [Nat.zero_add] at counts
      have counted : ∀ snag, (pushLine frame 0 x.polls).raised = some snag → (∀ e, some snag ≠ some (Snag.escape e)) →
          (pushLine frame 0 x.polls).written = (pushLine frame 0 x.polls).crossed.length := fun snag raised caught =>
        counts.resolve_right fun interrupt => caught _ (raised.symm.trans interrupt)
      have clear : (pushLine frame 0 x.polls).raised = none →
          (pushLine frame 0 x.polls).written = (pushLine frame 0 x.polls).crossed.length := fun none' =>
        counts.resolve_right fun interrupt => nomatch none'.symm.trans interrupt
      split at ended
      · rename_i raised complete
        obtain ⟨same,caught⟩ := Send.finishAcp_reports ended
        rw [same,← counted _ raised caught,complete]
      · rename_i raised _
        obtain ⟨same,caught⟩ := Send.finishAcp_reports ended
        rw [same,← counted _ raised caught]
      · rename_i none' complete
        rw [Send.readResponse_reports ended,← clear none',complete]
      · rename_i none' _
        rw [(Send.finishAcp_reports ended).1,← clear none']

theorem runKimiAcp_once (quiet : hook.Quiet Crosses) : ∃ bytes, Once frame (runKimiAcp (exchange d frame hook) frame hook) bytes := by
  unfold runKimiAcp
  split
  · exact ⟨[],finishAcp_once⟩
  · unfold Traced.attempt
    cases returned : hook.outcome with
    | error e =>
      refine ⟨[],once_quiet ?_ ?_⟩
      · refine Traced.Quiet.after quiet ?_
        simp only
        split
        · exact finishAcp_crosses
        · exact .raise
      · intro result ended
        simp only at ended
        split at ended
        · exact (Send.finishAcp_reports ended).1
        · cases ended
    | ok _ =>
      obtain ⟨bytes,once⟩ := writePrompt_once (exchange d frame hook) frame
      refine ⟨bytes,once.begins,?_,once.reported⟩
      change prompted (hook.trace ++ _) = _
      rw [prompted_append,quiet_unprompted quiet]
      exact once.only

end Once

section Afterwards
variable {d : Dialogue} {t : List Event}

def isPrompt : Event → Bool
  | .sent (.call 5) (.boundary .complete) => true
  | _ => false

-- From where the prompt has been written whole.
def afterwards (t : List Event) : List Event := t.dropWhile fun event => !isPrompt event

theorem filterMap_afterwards {α : Type} {f : Event → Option α} (before : ∀ event ∈ t.takeWhile fun event => !isPrompt event, f event = none) :
    t.filterMap f = (afterwards t).filterMap f := by
  conv => lhs; rw [← List.takeWhile_append_dropWhile (p := fun event => !isPrompt event) (l := t)]
  rw [List.filterMap_append,List.filterMap_eq_nil_iff.mpr before,List.nil_append]
  rfl

theorem before_inside {event : Event} {early later : List Event} (begins : t <+: early ++ .sent (.call 5) (.boundary .complete) :: later)
    (before : event ∈ t.takeWhile fun event => !isPrompt event) : event ∈ early := by
  induction early generalizing t with
  | nil =>
    cases t with
    | nil => cases before
    | cons first t =>
      have same := (List.cons_prefix_cons.mp begins).1
      subst same
      cases before
  | cons first early ih =>
    cases t with
    | nil => cases before
    | cons own t =>
      obtain ⟨same,cut⟩ := List.cons_prefix_cons.mp begins
      subst same
      rw [List.takeWhile_cons] at before
      split at before
      · rcases List.mem_cons.mp before with rfl | before
        · exact List.mem_cons_self
        · exact List.mem_cons_of_mem _ (ih cut before)
      · cases before

theorem later_afterwards {event : Event} {early later : List Event} (inside : event ∈ later) :
    event ∈ afterwards (early ++ .sent (.call 5) (.boundary .complete) :: later) := by
  induction early with
  | nil => exact List.mem_cons_of_mem _ inside
  | cons first early ih =>
    rw [List.cons_append,afterwards,List.dropWhile_cons]
    split
    · exact ih
    · exact List.mem_cons_of_mem _ (List.mem_append_right _ (List.mem_cons_of_mem _ inside))

end Afterwards

section Punctual
variable {d : Dialogue}

def answersMode (d : Dialogue) (line : Read) : Bool :=
  match envelopeOf d line with
  | .ok e => (get e "method").isNone && decide ((responseId e).toOption = some (.int 4))
  | .error _ => false

def isChunk (d : Dialogue) (line : Read) : Bool :=
  match envelopeOf d line with
  | .ok e => (Event.part d (.heard e)).isSome
  | .error _ => false

-- No chunk of the session's message comes before the answer to session/set_mode.
def Punctual (d : Dialogue) : Prop := ∀ line ∈ d.reads.takeWhile fun line => !answersMode d line, isChunk d line = false

-- No chunk was heard.
def Silent (d : Dialogue) (s : Link) : Prop := ∀ e, .heard e ∈ s.transcript → Event.part d (.heard e) = none

instance : Admits fun _ => True := ⟨trivial⟩

theorem silent_discipline : Discipline (Silent d) fun _ => True where
  overflow := trivial
  late := trivial
  unanswered := trivial
  raised := fun _ _ _ _ => trivial
  same := fun _ _ transcript _ silent e inside => silent e (transcript ▸ inside)
  sent := fun _ _ _ silent e inside => silent e ((List.mem_append.mp inside).resolve_right (by simp))

theorem silent_fine {line : Read} (quiet : isChunk d line = false) : Fine (Silent d) (fun _ => True) d line where
  raised := settles_envelopeOf fun _ _ => trivial
  takes := fun e made => ⟨envelopeOf_bounded made,.inl trivial,fun _ => trivial⟩
  heard := by
    intro e made s silent own inside
    rcases List.mem_append.mp inside with before | last
    · exact silent own before
    · cases List.mem_singleton.mp last
      rw [isChunk,made] at quiet
      exact Option.not_isSome_iff_eq_none.mp (by simpa using quiet)

theorem answersMode_quiet {line : Read} (answers : answersMode d line = true) : isChunk d line = false := by
  unfold answersMode at answers
  unfold isChunk
  split at answers
  · rename_i e _
    obtain ⟨noMethod,_⟩ := Bool.and_eq_true_iff.mp answers
    have silent : (get e "method").isSome = false := by simpa using noMethod
    simp [part_response silent]
  · cases answers

def Quiets (d : Dialogue) (n : Nat) (reads : List Read) : Prop :=
  n < 4 → ∀ line ∈ reads.takeWhile fun line => !answersMode d line, isChunk d line = false

theorem quiets_stage (call : n < 4) : Stage (Silent d) (fun _ => True) d (n + 1) (Quiets d n) (Quiets d (n + 1)) where
  fine := by
    intro line rest quiets
    cases answers : answersMode d line with
    | true => exact silent_fine (answersMode_quiet answers)
    | false =>
      have all := quiets call
      rw [List.takeWhile_cons_of_pos (by simpa using answers)] at all
      exact silent_fine (all line List.mem_cons_self)
  called := by
    intro line rest e quiets made method _
    have other : answersMode d line = false := by
      rw [answersMode,made]
      simp [Option.isSome_iff_ne_none.mp method]
    have all := quiets call
    rw [List.takeWhile_cons_of_pos (by simpa using other)] at all
    exact fun own inside => all own (List.mem_cons_of_mem _ inside)
  answered := by
    intro line rest e quiets made expected early
    have other : answersMode d line = false := by
      rw [answersMode,made]
      simp only [expected.own,Except.toOption,Option.some.injEq,RpcId.int.injEq,Bool.and_eq_false_iff,decide_eq_false_iff_not]
      omega
    have all := quiets call
    rw [List.takeWhile_cons_of_pos (by simpa using other)] at all
    exact fun own inside => all own (List.mem_cons_of_mem _ inside)

-- Up to the prompt nothing of the session's message is heard.
theorem setup_silent (punctual : Punctual d) : Silent d (afterSetup d).2 := by
  have carries : Carries (Silent d) (fun _ => True) (Quiets d 4) (setup d) :=
    setup_carries silent_discipline (fun _ => trivial) (fun _ _ => trivial) (Quiets d) (fun _ call => quiets_stage call) (fun _ _ => trivial)
      fun _ => punctual
  have start : Silent d (begin d) := nofun
  cases ran : (afterSetup d).1 with
  | ok reads => exact (carries.answered start (Prod.ext ran rfl)).2
  | error snag => exact (carries.raised start (Prod.ext ran rfl)).2

end Punctual

section Onwards
variable {d : Dialogue} {early : List Event} {e : Fields}

def promptSent : Event := .sent (.call 5) (.boundary .complete)

theorem begins_sent {t : List Event} (begins : early <+: t) (event : Event) : early <+: t ++ [event] := begins.trans (List.prefix_append _ _)

theorem onwards_discipline : Discipline (early <+: ·.transcript) fun _ => True where
  overflow := trivial
  late := trivial
  unanswered := trivial
  raised := fun _ _ _ _ => trivial
  same := fun _ _ transcript _ begins => transcript ▸ begins
  sent := fun _ _ _ begins => begins_sent begins _

theorem onwards_fine (line : Read) : Fine (early <+: ·.transcript) (fun _ => True) d line where
  raised := settles_envelopeOf fun _ _ => trivial
  takes := fun _ made => ⟨envelopeOf_bounded made,.inl trivial,fun _ => trivial⟩
  heard := fun _ _ _ begins => begins_sent begins _

theorem settlePrompt_onwards (reads : List Read) : Triple (·.transcript = early) (settlePrompt d reads)
    (fun _ s => early ++ [promptSent] <+: s.transcript) (fun _ s => early ++ [promptSent] <+: s.transcript) := by
  unfold settlePrompt
  apply Triple.through fun _ s => s.transcript = early
  · exact .change fun _ same => same
  intro _
  apply Triple.through fun _ s => early ++ [promptSent] <+: s.transcript
  · apply Triple.change
    intro s same
    rw [← same]
    exact List.prefix_refl _
  intro _
  have carries := promptAnswer_carries (d := d) onwards_discipline (stage_all (I := (early ++ [promptSent] <+: ·.transcript))) reads
    fun line _ => onwards_fine line
  exact Triple.weaken carries (fun _ begins => begins) (fun _ _ both => both.2) (fun _ _ both => both.2)

theorem prompt_onwards (ok : (afterSetup d).1 = .ok reads) : (afterSetup d).2.transcript ++ [promptSent] <+: (afterPrompt d).2.transcript := by
  rw [afterPrompt_run ok]
  cases ran : (settlePrompt d reads (afterSetup d).2).1 with
  | ok rest => exact (settlePrompt_onwards reads).answered rfl (Prod.ext ran rfl)
  | error snag => exact (settlePrompt_onwards reads).raised rfl (Prod.ext ran rfl)

theorem trailing_onwards (ok : (afterSetup d).1 = .ok reads) :
    (afterSetup d).2.transcript ++ [promptSent] <+: (afterTrailing d).2.transcript := by
  have begins := prompt_onwards ok
  cases settled : (afterPrompt d).1 with
  | error snag =>
    rw [afterTrailing_stuck settled]
    exact begins
  | ok rest =>
    have discipline : Discipline ((afterSetup d).2.transcript ++ [promptSent] <+: ·.transcript) fun _ => True := onwards_discipline
    have carries := drainTrailing_carries (d := d) discipline rest fun line _ => onwards_fine line
    rw [afterTrailing_run settled]
    cases ran : (drainTrailing d rest (afterPrompt d).2).1 with
    | ok done => exact (carries.answered begins (Prod.ext ran rfl)).2
    | error snag => exact (carries.raised begins (Prod.ext ran rfl)).2

end Onwards

section Busy
variable {d : Dialogue} {early : List Event} {e : Fields}

-- The failures of the driver are its own.
structure Apart (d : Dialogue) : Prop where
  reads : ∀ code, .raised (.driver code) ∉ d.reads
  writes : ∀ code, .raised (.driver code) ∉ d.writes

def NotBusy (snag : Snag) : Prop := snag ≠ .driver "session_busy"

def BusyIf (e : Fields) (snag : Snag) : Prop := snag = .driver "session_busy" → SaysBusy e

instance : Admits NotBusy := ⟨by simp [NotBusy,protocolError]⟩
instance : Admits (BusyIf e) := ⟨fun same => by simp [protocolError] at same⟩

-- The envelope was heard after all that.
def HeardAfter (early : List Event) (e : Fields) (t : List Event) : Prop := ∃ later, t = early ++ later ∧ .heard e ∈ later

theorem heardAfter_sent {t : List Event} (heard : HeardAfter early e t) (event : Event) : HeardAfter early e (t ++ [event]) := by
  obtain ⟨later,cut,inside⟩ := heard
  exact ⟨later ++ [event],by rw [cut,List.append_assoc],List.mem_append_left _ inside⟩

def Open (early : List Event) (s : Link) : Prop := early <+: s.transcript ∧ Tame NotBusy s

def Held (early : List Event) (e : Fields) (s : Link) : Prop := HeardAfter early e s.transcript ∧ Tame NotBusy s

theorem held_discipline : Discipline (Held early e) (BusyIf e) where
  overflow := fun same => by simp at same
  late := nofun
  unanswered := fun same => by simp at same
  raised := fun _ held snag inside same => absurd same (held.2 snag inside)
  same := fun _ _ transcript writes held => ⟨transcript ▸ held.1,fun snag inside => held.2 snag (writes ▸ inside)⟩
  sent := fun _ _ _ held => ⟨heardAfter_sent held.1 _,fun snag inside => held.2 snag (List.mem_of_mem_tail inside)⟩

theorem held_open (held : Held early e s) : Open early s := by
  obtain ⟨⟨later,cut,_⟩,tame⟩ := held
  exact ⟨⟨later,cut.symm⟩,tame⟩

def BusyHeard (early : List Event) (snag : Snag) (s : Link) : Prop :=
  snag = .driver "session_busy" → ∃ e, HeardAfter early e s.transcript ∧ SaysBusy e

theorem readEnvelope_held {line : Read} (apart : ∀ snag, line = .raised snag → NotBusy snag) :
    Triple (Open early) (readEnvelope d line) (fun e s => envelopeOf d line = .ok e ∧ Held early e s) (BusyHeard early) := by
  unfold readEnvelope
  apply Triple.through fun e s => envelopeOf d line = .ok e ∧ Open early s
  · refine Triple.settle (fun _ made _ opened => ⟨made,opened⟩) fun snag raised _ _ busy => ?_
    exact absurd busy (settles_envelopeOf apart snag raised)
  intro e
  apply Triple.given
  intro made
  apply Triple.through fun _ s => Held early e s
  · apply Triple.change
    intro s opened
    obtain ⟨⟨later,cut⟩,tame⟩ := opened
    refine ⟨⟨later ++ [.heard e],?_,List.mem_append_right _ (List.mem_singleton_self _)⟩,tame⟩
    change s.transcript ++ _ = _
    rw [← cut,List.append_assoc]
  · exact fun _ => .pure fun _ held => ⟨made,held⟩

theorem awaitResponse_busy (reads : List Read) (apart : ∀ line ∈ reads, ∀ snag, line = .raised snag → NotBusy snag) :
    Triple (Open early) (awaitResponse d 5 reads) (fun r _ => Bounded (.dict r.1) ∧ True) (BusyHeard early) := by
  induction reads with
  | nil => exact .raise fun _ _ busy => nomatch busy
  | cons line rest ih =>
    apply Triple.bind (readEnvelope_held (apart line List.mem_cons_self))
    intro e
    apply Triple.given
    intro made
    have takes : Takes (BusyIf e) e := ⟨envelopeOf_bounded made,.inl nofun,fun told _ => told⟩
    have discipline : Discipline (Held early e) (BusyIf e) := held_discipline
    have consumed := consume_carries (d := d) discipline takes (some 5)
    apply Triple.bind (Triple.weaken consumed (fun _ held => held) (fun _ _ both => both) fun snag s both busy => ⟨e,both.2.1,both.1 busy⟩)
    intro response
    apply Triple.given
    intro taken
    cases response with
    | none =>
      exact (ih fun own inside => apart own (List.mem_cons_of_mem _ inside)).weaken (fun _ held => held_open held) (fun _ _ after => after)
        (fun _ _ busy => busy)
    | some response =>
      obtain ⟨rfl,_⟩ := taken.2 response rfl
      exact .pure fun _ _ => ⟨envelopeOf_bounded made,trivial⟩

theorem settlePrompt_busy (reads : List Read) (apart : ∀ line ∈ reads, ∀ snag, line = .raised snag → NotBusy snag) :
    Triple (fun s => s.transcript = early ∧ Tame NotBusy s) (settlePrompt d reads) (fun _ _ => True) (BusyHeard (early ++ [promptSent])) := by
  unfold settlePrompt
  apply Triple.through fun _ s => s.transcript = early ∧ Tame NotBusy s
  · exact .change fun _ both => both
  intro _
  apply Triple.through fun _ => Open (early ++ [promptSent])
  · apply Triple.change
    intro s both
    obtain ⟨same,tame⟩ := both
    refine ⟨?_,tame⟩
    rw [← same]
    exact List.prefix_refl _
  intro _
  apply Triple.bind (awaitResponse_busy reads apart)
  intro r
  obtain ⟨response,rest⟩ := r
  apply Triple.given
  intro bounded
  have settles : Settles NotBusy (promptResult response) := settles_promptResult bounded (.inl (by simp [NotBusy]))
  apply Triple.through fun _ _ => True
  · exact Triple.settle (fun _ _ _ _ => trivial) fun snag raised _ _ busy => absurd busy (settles snag raised)
  intro stopReason
  apply Triple.through fun _ _ => True
  · exact .change fun _ _ => trivial
  intro _
  apply Triple.through fun _ _ => True
  · exact .change fun _ _ => trivial
  · exact fun _ => .pure fun _ _ => trivial

theorem suffix_stage : Stage (Tame NotBusy) (fun _ => True) d n (· <:+ d.reads) (· <:+ d.reads) where
  fine := fun _ => ⟨settles_envelopeOf fun _ _ => trivial,fun _ made => ⟨envelopeOf_bounded made,.inl trivial,fun _ => trivial⟩,
    fun _ _ _ tame => tame⟩
  called := fun suffix _ _ => (List.suffix_cons _ _).trans suffix
  answered := fun suffix _ _ => (List.suffix_cons _ _).trans suffix

theorem setup_apart (apart : Apart d) (ok : (afterSetup d).1 = .ok reads) : reads <:+ d.reads ∧ Tame NotBusy (afterSetup d).2 := by
  have discipline : Discipline (Tame NotBusy) fun _ => True := ⟨trivial,trivial,trivial,fun _ _ _ _ => trivial,
    fun _ _ _ writes tame snag inside => tame snag (writes ▸ inside),fun _ _ _ tame snag inside => tame snag (List.mem_of_mem_tail inside)⟩
  have carries : Carries (Tame NotBusy) (fun _ => True) (· <:+ d.reads) (setup d) :=
    setup_carries discipline (fun _ => trivial) (fun _ _ => trivial) (fun _ reads => reads <:+ d.reads)
      (fun _ _ => suffix_stage) (fun _ _ => trivial) (List.suffix_refl _)
  have start : Tame NotBusy (begin d) := fun snag inside busy => apart.writes _ (busy ▸ inside)
  exact carries.answered start (Prod.ext ok rfl)

-- The busy failure comes of an answer to the prompt that says so.
theorem busy_heard (apart : Apart d) (ok : (afterSetup d).1 = .ok reads) (busy : (afterPrompt d).1 = .error (.driver "session_busy")) :
    ∃ e, HeardAfter ((afterSetup d).2.transcript ++ [promptSent]) e (afterPrompt d).2.transcript ∧ SaysBusy e := by
  obtain ⟨suffix,tame⟩ := setup_apart apart ok
  have plain : ∀ line ∈ reads, ∀ snag, line = .raised snag → NotBusy snag := by
    intro line inside snag raised busy
    subst raised busy
    exact apart.reads _ (suffix.subset inside)
  rw [afterPrompt_run ok] at busy ⊢
  exact (settlePrompt_busy reads plain).raised ⟨rfl,tame⟩ (Prod.ext busy rfl) rfl

end Busy

section Told
variable {d : Dialogue} {frame : List UInt8} {hook : Send.Run Unit} {confirm : Option (Except Foreign Bool)} {s : Link} {n : Nat} {waits : Bool}

-- The exchange up to where it is broken off, if it is; nothing of the message is told before the prompt.
structure Later (d : Dialogue) (n : Nat) (waits : Bool) (t tail : List Event) (s : Link) : Prop where
  cut : s.transcript = t ++ tail
  accounts : Accounts d n waits t s
  breaks : Breaks n tail
  before : ∀ event ∈ t.takeWhile fun event => !isPrompt event, Event.part d event = none ∧ Event.stop event = none

theorem silent_part (silent : Silent d s) {event : Event} (inside : event ∈ s.transcript) : Event.part d event = none := by
  cases event with
  | heard e => exact silent e inside
  | sent frame answer => rfl

theorem broke_later (broke : Broke d n waits s) (early : n < 5) (silent : Silent d s) : ∃ t tail, Later d n waits t tail s := by
  obtain ⟨t,tail,cut,accounts,breaks⟩ := broke
  refine ⟨t,tail,cut,accounts,breaks,fun event before => ?_⟩
  have inside := List.takeWhile_subset _ before
  refine ⟨silent_part silent ?_,List.filterMap_eq_nil_iff.mp (legal_unstopped accounts.legal early) event inside⟩
  rw [cut]
  exact List.mem_append_left _ inside

theorem sent_later (ok : (afterSetup d).1 = .ok reads) (broke : Broke d n waits s) (silent : Silent d (afterSetup d).2)
    (begins : (afterSetup d).2.transcript ++ [promptSent] <+: s.transcript) : ∃ t tail, Later d n waits t tail s := by
  obtain ⟨t,tail,cut,accounts,breaks⟩ := broke
  refine ⟨t,tail,cut,accounts,breaks,fun event before => ?_⟩
  obtain ⟨later,whole⟩ := begins
  have own : t <+: (afterSetup d).2.transcript ++ promptSent :: later := by
    rw [List.append_assoc] at whole
    exact ⟨tail,cut.symm.trans whole.symm⟩
  have inside := before_inside own before
  have unstopped : stops (afterSetup d).2.transcript = [] := legal_unstopped (afterSetup_follows ok).accounts.legal (by decide)
  exact ⟨silent_part silent inside,List.filterMap_eq_nil_iff.mp unstopped event inside⟩

theorem setup_broke (d : Dialogue) : ∃ n waits, n < 5 ∧ Broke d n waits (afterSetup d).2 := by
  cases ok : (afterSetup d).1 with
  | ok reads => exact ⟨4,false,by decide,follows_broke (afterSetup_follows ok)⟩
  | error snag =>
    obtain ⟨n,early,waits,broke⟩ := afterSetup_broken ok
    exact ⟨n,waits,Nat.lt_succ_of_lt early,broke⟩

theorem trailing_broke (ok : (afterSetup d).1 = .ok reads) : ∃ n waits, Broke d n waits (afterTrailing d).2 := by
  cases settled : (afterPrompt d).1 with
  | error snag =>
    rw [afterTrailing_stuck settled]
    exact ⟨4,true,afterPrompt_broke ok settled⟩
  | ok rest =>
    have follows := afterPrompt_follows ok settled
    rw [afterTrailing_run settled]
    cases ran : (drainTrailing d rest (afterPrompt d).2).1 with
    | ok done => exact ⟨5,false,follows_broke ((drainTrailing_follows rest).answered follows (Prod.ext ran rfl))⟩
    | error snag => exact ⟨5,false,(drainTrailing_follows rest).raised follows (Prod.ext ran rfl)⟩

theorem reached_later (punctual : Punctual d) : ∃ n waits t tail, Later d n waits t tail (reached d frame hook) := by
  have silent := setup_silent punctual
  cases both : hookReturned d hook with
  | false =>
    rw [reached_before both]
    obtain ⟨n,waits,early,broke⟩ := setup_broke d
    exact ⟨n,waits,broke_later broke early silent⟩
  | true =>
    obtain ⟨setUp,returned⟩ := Bool.and_eq_true_iff.mp both
    cases ok : (afterSetup d).1 with
    | error snag =>
      rw [ok] at setUp
      cases setUp
    | ok reads =>
      cases ended : hook.outcome with
      | error e =>
        rw [ended] at returned
        cases returned
      | ok _ =>
        by_cases complete : promptAnswer d frame = .boundary .complete
        · rw [reached_sent ok ended complete]
          obtain ⟨n,waits,broke⟩ := trailing_broke ok
          exact ⟨n,waits,sent_later ok broke silent (trailing_onwards ok)⟩
        · obtain ⟨waits,broke⟩ := reached_unsent ok ended complete
          refine ⟨4,waits,broke_later broke (by decide) ?_⟩
          rw [reached,if_pos both,if_neg complete]
          exact silent_discipline.sent _ _ _ silent

theorem runKimiAcp_response {x : Send.Exchange} (ended : (runKimiAcp x frame hook).outcome = .ok result) : result.responseText = x.responseText := by
  unfold runKimiAcp at ended
  split at ended
  · exact (finishAcp_finished ended).response
  · simp only [Traced.attempt] at ended
    split at ended
    · unfold Send.writePrompt at ended
      split at ended
      · exact (finishAcp_finished ended).response
      · simp only [crossing_outcome] at ended
        split at ended
        · exact (finishAcp_finished ended).response
        · exact (finishAcp_finished ended).response
        · unfold Send.readResponse at ended
          split at ended <;> exact (finishAcp_finished ended).response
        · exact (finishAcp_finished ended).response
    · simp only at ended
      split at ended
      · exact (finishAcp_finished ended).response
      · cases ended

theorem reported_trace (definitive : Bool) : (reported d frame hook definitive).trace = (runKimiAcp (exchange d frame hook) frame hook).trace := by
  unfold reported Traced.bind Traced.attempt
  split <;> exact List.append_nil _

theorem report_trace : (report d frame hook confirm).trace = (runKimiAcp (exchange d frame hook) frame hook).trace := by
  unfold report
  split
  · split
    · exact reported_trace _
    · exact reported_trace _
    · split
      · exact reported_trace _
      · rfl
  · exact reported_trace _

theorem reported_ok {definitive : Bool} (ended : (reported d frame hook definitive).outcome = .ok r) :
    (runKimiAcp (exchange d frame hook) frame hook).outcome = .ok r.result ∧ r.ownTurnStarted = (reached d frame hook).ownTurnStarted ∧
    r.definitiveBusyRejection = definitive := by
  unfold reported Traced.bind Traced.attempt at ended
  split at ended
  · rename_i result own
    cases ended
    exact ⟨own,rfl,rfl⟩
  · cases ended

theorem report_ok (ended : (report d frame hook confirm).outcome = .ok r) :
    (runKimiAcp (exchange d frame hook) frame hook).outcome = .ok r.result ∧ r.ownTurnStarted = (reached d frame hook).ownTurnStarted ∧
    (r.definitiveBusyRejection = true → busyResponse d frame hook = true ∧ confirm = some (.ok true)) := by
  have denied : (reported d frame hook false).outcome = .ok r → (runKimiAcp (exchange d frame hook) frame hook).outcome = .ok r.result ∧
      r.ownTurnStarted = (reached d frame hook).ownTurnStarted ∧
      (r.definitiveBusyRejection = true → busyResponse d frame hook = true ∧ confirm = some (.ok true)) := by
    intro ended
    obtain ⟨result,own,same⟩ := reported_ok ended
    exact ⟨result,own,fun definitive => nomatch same.symm.trans definitive⟩
  unfold report at ended
  split at ended
  · rename_i busy
    split at ended
    · exact denied ended
    · rename_i confirmed
      obtain ⟨result,own,same⟩ := reported_ok ended
      refine ⟨result,own,fun definitive => ⟨busy,?_⟩⟩
      rw [← same,definitive]
    · split at ended
      · exact denied ended
      · cases ended
  · exact denied ended

-- What a result may say of the exchange that it is the result of.
structure Truthful (d : Dialogue) (frame : List UInt8) (hook : Send.Run Unit) (confirm : Option (Except Foreign Bool)) (r : Report) : Prop where
  updates : ∃ n waits t tail, (reached d frame hook).transcript = t ++ tail ∧ Legal d t n waits ∧ Breaks n tail ∧
    r.result.responseText = spoken (parts d (afterwards t)).flatten ∧
    r.ownTurnStarted = (!(parts d (afterwards t)).isEmpty || !(stops (afterwards t)).isEmpty)
  busy : r.definitiveBusyRejection = true → confirm = some (.ok true) ∧ ∃ e, .heard e ∈ afterwards (reached d frame hook).transcript ∧ SaysBusy e

theorem later_updates (later : Later d n waits t tail s) : s.responseParts = parts d (afterwards t) ∧
    s.ownTurnStarted = (!(parts d (afterwards t)).isEmpty || !(stops (afterwards t)).isEmpty) := by
  have accounts := later.accounts
  have told : s.responseParts = parts d (afterwards t) := by
    rw [accounts.parts]
    exact filterMap_afterwards fun event before => (later.before event before).1
  have stopped : s.stopReason = (stops (afterwards t)).getLast? := by
    rw [accounts.stop]
    exact congrArg List.getLast? (filterMap_afterwards fun event before => (later.before event before).2)
  have answered : ∀ l : List Value, l.getLast?.isSome = !l.isEmpty := fun l => by cases l <;> simp
  refine ⟨told,?_⟩
  rw [accounts.own,told,stopped,answered]

theorem busyResponse_heard (apart : Apart d) (busy : busyResponse d frame hook = true) :
    ∃ e, .heard e ∈ afterwards (reached d frame hook).transcript ∧ SaysBusy e := by
  simp only [busyResponse,Bool.and_eq_true,decide_eq_true_eq] at busy
  obtain ⟨⟨both,complete⟩,failed⟩ := busy
  obtain ⟨setUp,returned⟩ := Bool.and_eq_true_iff.mp both
  cases ok : (afterSetup d).1 with
  | error snag =>
    rw [ok] at setUp
    cases setUp
  | ok reads =>
    cases settled : (afterPrompt d).1 with
    | ok rest =>
      rw [settled] at failed
      cases failed
    | error snag =>
      rw [settled] at failed
      cases Option.some.inj failed
      obtain ⟨e,⟨later,cut,inside⟩,said⟩ := busy_heard apart ok settled
      refine ⟨e,?_,said⟩
      rw [reached,if_pos both,if_pos complete,afterTrailing_stuck settled,cut,List.append_assoc]
      exact later_afterwards inside

-- The prompt is written once at most, to the one session that was listed, and as far as it is said to be;
-- the response and the turn are those that came after it, and only its own answer says that the session
-- was busy: in every exchange in which the child does not speak too early.
theorem report_truthful (quiet : hook.Quiet Crosses) (apart : Apart d) (punctual : Punctual d) :
    (∃ bytes, bytes <+: frame ++ [Send.newline] ∧ prompted (report d frame hook confirm).trace = onlyLine bytes ∧
      (bytes ≠ [] → hook.outcome = .ok () ∧ ∃ e, .heard e ∈ (afterSetup d).2.transcript ∧ Responds e 2 ∧ Listed d e) ∧
      ∀ r, (report d frame hook confirm).outcome = .ok r → r.result.promptWrite = Send.writeBoundary bytes.length (frame.length + 1)) ∧
    ∀ r, (report d frame hook confirm).outcome = .ok r → Truthful d frame hook confirm r := by
  refine ⟨?_,?_⟩
  · have once : ∃ bytes, Once frame (runKimiAcp (exchange d frame hook) frame hook) bytes := runKimiAcp_once quiet
    obtain ⟨bytes,once⟩ := once
    refine ⟨bytes,once.begins,?_,?_,fun r ended => once.reported _ (report_ok ended).1⟩
    · rw [report_trace]
      exact once.only
    · intro some'
      have crossed : Send.Effect.prompt bytes ∈ (runKimiAcp (exchange d frame hook) frame hook).trace := by
        have inside : bytes ∈ prompted (runKimiAcp (exchange d frame hook) frame hook).trace := by
          rw [once.only,onlyLine,if_neg some']
          exact List.mem_singleton_self bytes
        obtain ⟨effect,there,same⟩ := List.mem_filterMap.mp inside
        cases effect with
        | prompt own =>
          cases same
          exact there
        | _ => cases same
      obtain ⟨returned,_,listed⟩ := prompt_guarded quiet crossed
      exact ⟨returned,listed⟩
  · intro r ended
    obtain ⟨result,own,definitive⟩ := report_ok ended
    have found : ∃ n waits t tail, Later d n waits t tail (reached d frame hook) := reached_later punctual
    obtain ⟨n,waits,t,tail,later⟩ := found
    obtain ⟨told,turn⟩ := later_updates later
    refine ⟨⟨n,waits,t,tail,later.cut,later.accounts.legal,later.breaks,?_,own.trans turn⟩,?_⟩
    · rw [runKimiAcp_response result,← told]
      rfl
    · intro rejected
      obtain ⟨busy,confirmed⟩ := definitive rejected
      exact ⟨confirmed,busyResponse_heard apart busy⟩

end Told

section Runs

def sketch (r : Report) : String × Send.PromptWriteBoundary × Option String × Bool × Bool :=
  (r.result.responseText,r.result.promptWrite,r.result.errorCode,r.ownTurnStarted,r.definitiveBusyRejection)

-- A chunk comes while session/resume is waited for, and then the prompt cannot be written.
def early : Dialogue := {demo with
  reads := demoReads.take 2 ++ (demoReads.drop 4).take 1 ++ (demoReads.drop 2).take 2
  polls := []}

theorem early_ran : (report early demoFrame (.done ()) none).outcome.toOption.map sketch = some ("hi",.none,some "timeout",true,false) ∧
    prompted (report early demoFrame (.done ()) none).trace = [] := by
  unfold early demoFrame demo demoReads Wrapper.ascii
  repeat rw [String.toList_ofList]
  decide +kernel

theorem early_tells : ∃ r, (report early demoFrame (.done ()) none).outcome = .ok r ∧ r.result.promptWrite = .none ∧
    r.result.responseText = "hi" ∧ r.ownTurnStarted = true ∧ prompted (report early demoFrame (.done ()) none).trace = [] := by
  obtain ⟨told,unsent⟩ := early_ran
  cases ended : (report early demoFrame (.done ()) none).outcome with
  | error e =>
    rw [ended] at told
    cases told
  | ok r =>
    rw [ended] at told
    have same : sketch r = ("hi",.none,some "timeout",true,false) := Option.some.inj told
    exact ⟨r,rfl,congrArg (·.2.1) same,congrArg (·.1) same,congrArg (·.2.2.2.1) same,unsent⟩

-- After the first chunk of the answer the session turns out to be busy, and the caller's proof agrees.
def refused : Dialogue := {demo with
  reads := demoReads.take 5 ++ [.line (Wrapper.ascii "\x7b\"jsonrpc\":\"2.0\",\"id\":5,\"error\":\x7b\"code\":-32000,\"message\":\"b\",\"data\":\x7b\"code\":\"turn.agent_busy\"\x7d\x7d\x7d")]}

theorem refused_apart : Apart refused := by
  refine ⟨fun code inside => ?_,fun code inside => ?_⟩
  · simp [refused,demoReads] at inside
  · simp [refused,demo] at inside

theorem refused_punctual : Punctual refused := by
  unfold Punctual refused demo demoReads Wrapper.ascii
  repeat rw [String.toList_ofList]
  decide +kernel

theorem refused_ran : (report refused demoFrame (.done ()) (some (.ok true))).outcome.toOption.map sketch =
    some ("hi",.complete,some "session_busy",true,true) := by
  unfold refused demoFrame demo demoReads Wrapper.ascii
  repeat rw [String.toList_ofList]
  decide +kernel

theorem refused_truthful : ∃ r, (report refused demoFrame (.done ()) (some (.ok true))).outcome = .ok r ∧
    sketch r = ("hi",.complete,some "session_busy",true,true) ∧ Truthful refused demoFrame (.done ()) (some (.ok true)) r := by
  have told := refused_ran
  cases ended : (report refused demoFrame (.done ()) (some (.ok true))).outcome with
  | error e =>
    rw [ended] at told
    cases told
  | ok r =>
    rw [ended] at told
    exact ⟨r,rfl,Option.some.inj told,(report_truthful .done refused_apart refused_punctual).2 r ended⟩

end Runs
end AgentSideCar.Acp
