import AgentSideCar.Send.AcpSteps

namespace AgentSideCar.Acp
open Send (Snag pushLine runKimiAcp finishAcp)

-- run_kimi_acp catches it, or it is an interrupt.
def Handled : Snag → Prop
  | .escape e => e.isException = false
  | _ => True

instance : Admits Handled := ⟨trivial⟩

-- What parse_json makes of the line has nothing there without a hash.
def Bearable (depth : Nat) (bytes : List UInt8) : Prop := ∀ e ∈ (parseJson depth bytes).bind fun v => (mapping v).toOption, Hashes e

instance (depth : Nat) (bytes : List UInt8) : Decidable (Bearable depth bytes) := inferInstanceAs (Decidable (∀ e ∈ _, Hashes e))

def troubleOf : Send.Poll → Option Snag
  | .raised snag => some snag
  | .wrote _ trouble => trouble
  | _ => none

-- What the process wrapper raises is an error of its own, a failure of the system, or an interrupt.
structure Contained (d : Dialogue) : Prop where
  spawned : ∀ snag, d.spawned = some snag → Handled snag
  reads : ∀ snag, .raised snag ∈ d.reads → Handled snag
  writes : ∀ snag, .raised snag ∈ d.writes → Handled snag
  unwritten : ∀ snag, d.unwritten = some snag → Handled snag
  polls : ∀ poll ∈ d.polls, ∀ snag, troubleOf poll = some snag → Handled snag
  waitClean : ∀ snag, d.waitClean = .error snag → Handled snag
  cleanup : ∀ e, d.cleanup = some e → e.isException = false

section Returns
variable {d : Dialogue} {frame : List UInt8} {hook : Send.Run Unit}

theorem pushLine_handled {polls : List Send.Poll} (contained : ∀ poll ∈ polls, ∀ snag, troubleOf poll = some snag → Handled snag)
    (raised : (pushLine payload written polls).raised = some snag) : Handled snag := by
  induction polls generalizing written with
  | nil => cases raised
  | cons poll rest ih =>
    have later : ∀ {written}, (pushLine payload written rest).raised = some snag → Handled snag :=
      ih fun poll inside => contained poll (List.mem_cons_of_mem _ inside)
    have own := contained poll List.mem_cons_self
    unfold pushLine at raised
    split at raised
    · cases raised
    · cases poll with
      | expired => cases raised
      | idle => exact later raised
      | raised other =>
        cases raised
        exact own snag rfl
      | broken => cases raised
      | interrupted count =>
        cases raised
        rfl
      | wrote count trouble =>
        simp only at raised
        split at raised
        · cases raised
        · cases trouble with
          | some other =>
            cases raised
            exact own snag rfl
          | none => exact later raised

theorem finishAcp_returns {x : Send.Exchange} {phase : Send.AcpPhase} {promptWrite : Send.PromptWriteBoundary} {stopReason : Option String}
    {snag : Option Snag} (handled : ∀ own, snag = some own → Handled own) (cleanup : ∀ e, x.cleanup = some e → e.isException = false)
    (raised : (finishAcp x phase promptWrite stopReason snag).outcome = .error e) : e.isException = false := by
  unfold finishAcp at raised
  split at raised
  · cases raised
    exact handled _ rfl
  · rename_i own
    cases raised
    exact cleanup _ own
  · cases raised

theorem handled_discipline : Discipline (Tame Handled) Handled := tame_discipline trivial trivial trivial

theorem begin_tame (contained : Contained d) : Tame Handled (begin d) := contained.writes

theorem prompt_tame (reads : List Read) (fine : AllFine (Tame Handled) Handled d reads) :
    Carries (Tame Handled) Handled (AllFine (Tame Handled) Handled d) (settlePrompt d reads) :=
  settlePrompt_carries handled_discipline stage_all (fun _ tame => tame) reads fine

section Parts
variable (contained : Contained d) (lines : ∀ bytes, .line bytes ∈ d.reads → Bearable d.depth bytes)
include contained lines

theorem reads_fine : AllFine (Tame Handled) Handled d d.reads := by
  intro line inside
  refine ⟨settles_envelopeOf fun snag same => contained.reads snag (same ▸ inside),fun e made => ?_,fun _ _ _ tame => tame⟩
  refine ⟨envelopeOf_bounded made,.inr ?_,fun _ => trivial⟩
  cases line with
  | line bytes =>
    unfold envelopeOf at made
    simp only at made
    split at made
    · rename_i value parsed
      apply lines bytes inside
      rw [parsed,Option.bind_some,made]
      rfl
    · cases made
  | eof => cases made
  | raised snag => cases made

theorem setup_tame : Carries (Tame Handled) Handled (AllFine (Tame Handled) Handled d) (setup d) :=
  setup_carries handled_discipline (fun _ => trivial) (fun _ interrupt => interrupt) (fun _ => AllFine (Tame Handled) Handled d)
    (fun _ _ => stage_all) contained.spawned (reads_fine contained lines)

theorem setup_handled (raised : (afterSetup d).1 = .error snag) : Handled snag :=
  ((setup_tame contained lines).raised (begin_tame contained) (Prod.ext raised rfl)).1

theorem setup_fine (ok : (afterSetup d).1 = .ok reads) :
    AllFine (Tame Handled) Handled d reads ∧ Tame Handled (afterSetup d).2 :=
  (setup_tame contained lines).answered (begin_tame contained) (Prod.ext ok rfl)

theorem prompt_handled (ok : (afterSetup d).1 = .ok reads) (raised : (afterPrompt d).1 = .error snag) : Handled snag := by
  obtain ⟨fine,tame⟩ := setup_fine contained lines ok
  rw [afterPrompt_run ok] at raised
  exact ((prompt_tame reads fine).raised tame (Prod.ext raised rfl)).1

theorem prompt_fine (ok : (afterSetup d).1 = .ok reads) (settled : (afterPrompt d).1 = .ok rest) :
    AllFine (Tame Handled) Handled d rest ∧ Tame Handled (afterPrompt d).2 := by
  obtain ⟨fine,tame⟩ := setup_fine contained lines ok
  rw [afterPrompt_run ok] at settled ⊢
  exact (prompt_tame reads fine).answered tame (Prod.ext settled rfl)

theorem trailing_handled (ok : (afterSetup d).1 = .ok reads) (settled : (afterPrompt d).1 = .ok rest)
    (raised : (afterTrailing d).1 = .error snag) : Handled snag := by
  obtain ⟨fine,tame⟩ := prompt_fine contained lines ok settled
  rw [afterTrailing_run settled] at raised
  exact ((drainTrailing_carries handled_discipline rest fine).raised tame (Prod.ext raised rfl)).1

theorem readResponse_returns (ok : (afterSetup d).1 = .ok reads) (raised : (Send.readResponse (exchange d frame hook)).outcome = .error e) :
    e.isException = false := by
  unfold Send.readResponse at raised
  cases prompt : (afterPrompt d).1 with
  | error snag =>
    rw [show (exchange d frame hook).settled = .error snag by rw [exchange,prompt]] at raised
    refine finishAcp_returns (fun own same => ?_) contained.cleanup raised
    cases same
    exact prompt_handled contained lines ok prompt
  | ok rest =>
    rw [show (exchange d frame hook).settled = .ok (reasonText (reached d frame hook).stopReason) by rw [exchange,prompt]] at raised
    refine finishAcp_returns (fun own same => ?_) contained.cleanup raised
    cases trailing : (afterTrailing d).1 with
    | error snag =>
      rw [show (exchange d frame hook).trailing = some snag by rw [exchange,trailing]] at same
      cases same
      exact trailing_handled contained lines ok prompt trailing
    | ok _ =>
      rw [show (exchange d frame hook).trailing = snagOf d.waitClean by rw [exchange,trailing]] at same
      cases waited : d.waitClean with
      | ok process =>
        rw [waited] at same
        cases same
      | error snag =>
        rw [waited] at same
        cases same
        exact contained.waitClean _ waited

theorem writePrompt_returns (ok : (afterSetup d).1 = .ok reads) (raised : (Send.writePrompt (exchange d frame hook) frame).outcome = .error e) :
    e.isException = false := by
  unfold Send.writePrompt at raised
  cases unwritten : d.unwritten with
  | some snag =>
    rw [show (exchange d frame hook).unwritten = some snag from unwritten] at raised
    refine finishAcp_returns (fun own same => ?_) contained.cleanup raised
    cases same
    exact contained.unwritten snag unwritten
  | none =>
    rw [show (exchange d frame hook).unwritten = none from unwritten] at raised
    simp only [crossing_outcome] at raised
    split at raised
    · rename_i snag trouble _
      refine finishAcp_returns (fun own same => ?_) contained.cleanup raised
      cases same
      exact pushLine_handled contained.polls trouble
    · rename_i snag boundary trouble _
      refine finishAcp_returns (fun own same => ?_) contained.cleanup raised
      cases same
      exact pushLine_handled contained.polls trouble
    · exact readResponse_returns contained lines ok raised
    · refine finishAcp_returns (fun own same => ?_) contained.cleanup raised
      cases same
      exact trivial

-- Where no line holds something without a hash at these places, run_kimi_acp raises an interrupt or
-- nothing, whatever else the lines hold and however the writes end.
theorem runKimiAcp_returns : (∃ result, (runKimiAcp (exchange d frame hook) frame hook).outcome = .ok result) ∨
    ∃ e, (runKimiAcp (exchange d frame hook) frame hook).outcome = .error e ∧ e.isException = false := by
  cases raised : (runKimiAcp (exchange d frame hook) frame hook).outcome with
  | ok result => exact .inl ⟨result,rfl⟩
  | error e =>
    refine .inr ⟨e,rfl,?_⟩
    unfold runKimiAcp at raised
    cases ok : (afterSetup d).1 with
    | error snag =>
      rw [show (exchange d frame hook).setup = ((afterSetup d).2.phase,some snag) by rw [exchange,ok]; rfl] at raised
      refine finishAcp_returns (fun own same => ?_) contained.cleanup raised
      cases same
      exact setup_handled contained lines ok
    | ok reads =>
      rw [show (exchange d frame hook).setup = ((afterSetup d).2.phase,none) by rw [exchange,ok]; rfl] at raised
      simp only [Traced.attempt] at raised
      cases returned : hook.outcome with
      | ok _ =>
        rw [returned] at raised
        exact writePrompt_returns contained lines ok raised
      | error own =>
        rw [returned] at raised
        simp only at raised
        split at raised
        · refine finishAcp_returns (fun snag same => ?_) contained.cleanup raised
          cases same
          exact trivial
        · rename_i interrupt
          cases raised
          exact (Bool.not_eq_true _).mp interrupt

end Parts
end Returns

section Unhashed

theorem demo_contained : Contained demo := by
  refine ⟨nofun,?_,?_,nofun,?_,nofun,nofun⟩
  · intro snag inside
    simp [demo,demoReads] at inside
  · intro snag inside
    simp [demo] at inside
  · intro poll inside snag trouble
    rw [List.eq_of_mem_replicate inside] at trouble
    cases trouble

def lineOf : Read → Option (List UInt8)
  | .line bytes => some bytes
  | _ => none

theorem demo_bearable : ∀ bytes, .line bytes ∈ demo.reads → Bearable demo.depth bytes := by
  have all : ∀ bytes ∈ demoReads.filterMap lineOf, Bearable 100 bytes := by
    unfold demoReads Wrapper.ascii
    repeat rw [String.toList_ofList]
    decide +kernel
  exact fun bytes inside => all bytes (List.mem_filterMap.mpr ⟨_,inside,rfl⟩)

theorem demo_returns : (∃ result, demoRun.outcome = .ok result) ∨ ∃ e, demoRun.outcome = .error e ∧ e.isException = false :=
  runKimiAcp_returns demo_contained demo_bearable

-- The same exchange, but the prompt's own response gives a list as its stop reason.
def unhashed : Dialogue := {demo with
  reads := demoReads.take 4 ++ [.line (Wrapper.ascii "\x7b\"jsonrpc\":\"2.0\",\"id\":5,\"result\":\x7b\"stopReason\":[]\x7d\x7d"),.eof]}

def unhashedRun : Send.Run Send.KimiAcpResult := runKimiAcp (exchange unhashed demoFrame (.done ())) demoFrame (.done ())

def escaped {α : Type} : Except Send.Raised α → Option Send.Raised
  | .ok _ => none
  | .error e => some e

theorem unhashed_ran : escaped unhashedRun.outcome = some (.foreign .other) ∧ prompted unhashedRun.trace = [demoFrame ++ [Send.newline]] := by
  unfold unhashedRun demoFrame unhashed demo demoReads Wrapper.ascii
  repeat rw [String.toList_ofList]
  decide +kernel

-- The prompt has crossed, and what escapes is no interrupt.
theorem unhashed_escapes : Contained unhashed ∧ (∀ bytes, .line bytes ∈ unhashed.reads → (parseJson unhashed.depth bytes).isSome = true) ∧
    (∃ e, unhashedRun.outcome = .error e ∧ e.isException = true) ∧ prompted unhashedRun.trace = [demoFrame ++ [Send.newline]] := by
  obtain ⟨raised,crossed⟩ := unhashed_ran
  refine ⟨?_,?_,?_,crossed⟩
  · refine ⟨nofun,?_,demo_contained.writes,nofun,demo_contained.polls,nofun,nofun⟩
    intro snag inside
    simp [unhashed,demoReads] at inside
  · have all : ∀ bytes ∈ unhashed.reads.filterMap lineOf, (parseJson 100 bytes).isSome = true := by
      unfold unhashed demoReads Wrapper.ascii
      repeat rw [String.toList_ofList]
      decide +kernel
    exact fun bytes inside => all bytes (List.mem_filterMap.mpr ⟨_,inside,rfl⟩)
  · cases ended : unhashedRun.outcome with
    | ok result =>
      rw [ended] at raised
      cases raised
    | error e =>
      rw [ended] at raised
      cases raised
      exact ⟨_,rfl,rfl⟩

end Unhashed
end AgentSideCar.Acp
